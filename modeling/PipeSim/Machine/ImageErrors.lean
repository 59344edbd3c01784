import PipeSim.Functional.StoreLog
import PipeSim.Machine.ImageFile

/-!
# Images that run over the memory

`prepareMemory` always comes to its end.  It gives up at the first pair outside the memory,
with the pairs in front of it written and with the bytes of this pair that fit.
-/

namespace PipeSim

open Library

/-- The writes that `prepareMemory` attempts: those of the image and one of zero at address
0. -/
def attemptedWrites (pairs : List (HexToken × HexToken)) : List MemoryStore.Write :=
  imageWrites pairs ++ [⟨0#32, 0#32, wordSize⟩]

namespace MemoryStore

def setUntilError (m : MemoryStore) : List Write -> Int × MemoryStore
  | [] => (0, m)
  | w :: ws =>
      if (m.setMemValue w.address w.value w.size).1 ≠ 0 then
        (-EINVAL, (m.setMemValue w.address w.value w.size).2)
      else setUntilError (m.setMemValue w.address w.value w.size).2 ws

/-- The writes that have been made with a return code: all of them, or those up to the first
one outside the memory. -/
def Stops (m : MemoryStore) (ws done : List Write) (code : Int) : Prop :=
  (code = 0 ∧ done = ws ∧ forall w, w ∈ ws -> m.Inside w.address w.size) ∨
    (code = -EINVAL ∧ exists before w after, ws = before ++ w :: after ∧
      done = before ++ [w] ∧ (forall v, v ∈ before -> m.Inside v.address v.size) ∧
      ¬ m.Inside w.address w.size)

section Writes

variable {m : MemoryStore} {ws : List Write}

theorem inside_congr {m' : MemoryStore} (hstart : m'.startAddr = m.startAddr)
    (hentries : m'.numEntries = m.numEntries) (address size : Word) :
    m'.Inside address size <-> m.Inside address size := by
  unfold Inside offset
  rw [hstart, hentries]

theorem Stops.cons {w : Write} {done : List Write} {code : Int}
    (hinside : m.Inside w.address w.size) (h : m.Stops ws done code) :
    m.Stops (w :: ws) (w :: done) code := by
  rcases h with ⟨hcode, rfl, hall⟩ | ⟨hcode, before, v, after, rfl, rfl, hbefore, hout⟩
  · refine Or.inl ⟨hcode, rfl, ?_⟩
    intro v hv
    rcases List.mem_cons.mp hv with rfl | hlater
    · exact hinside
    · exact hall v hlater
  · refine Or.inr ⟨hcode, w :: before, v, after, rfl, rfl, ?_, hout⟩
    intro u hu
    rcases List.mem_cons.mp hu with rfl | hlater
    · exact hinside
    · exact hbefore u hlater

theorem setUntilError_stops (hm : m.numEntries < 2 ^ 32)
    (hsizes : forall w, w ∈ ws -> validSize w.size = true) :
    exists done, m.Stops ws done (m.setUntilError ws).1 ∧
      (m.setUntilError ws).2 = m.setAll done := by
  induction ws generalizing m with
  | nil =>
      exact ⟨[], Or.inl ⟨rfl, rfl, fun _ hw => absurd hw List.not_mem_nil⟩, rfl⟩
  | cons w ws ih =>
      have hstart := setMemValue_startAddr hm w.address w.value w.size
      have hentries := setMemValue_numEntries hm w.address w.value w.size
      have hsize := hsizes w List.mem_cons_self
      have hcode : (m.setMemValue w.address w.value w.size).1 = 0 <->
          m.Inside w.address w.size := by
        rw [setMemValue_code hm, accessCode_eq_zero_iff, and_iff_right hsize]
      unfold setUntilError
      by_cases hinside : m.Inside w.address w.size
      · rw [if_neg (not_not.mpr (hcode.mpr hinside))]
        rcases ih (by rw [hentries]; exact hm) fun v hv => hsizes v (List.mem_cons_of_mem w hv)
          with ⟨done, hstops, hdone⟩
        have hsame := inside_congr hstart hentries
        unfold Stops at hstops
        simp only [hsame] at hstops
        exact ⟨w :: done, Stops.cons hinside hstops, hdone⟩
      · rw [if_pos fun h => hinside (hcode.mp h)]
        exact ⟨[w], Or.inr ⟨rfl, [], w, ws, rfl, rfl, fun _ hv => absurd hv List.not_mem_nil,
          hinside⟩, rfl⟩

end Writes

end MemoryStore

section Loop

variable {mem : MemoryStore}

theorem exists_prepareMemoryLoop {fuel : Nat} {s : InStream} (h : s.rest.length + 2 ≤ fuel)
    (mem : MemoryStore) : exists result, prepareMemoryLoop fuel s mem = some result := by
  induction fuel generalizing s mem with
  | zero =>
      cases h
  | succ fuel ih =>
      rw [prepareMemoryLoop]
      split
      · exact ⟨_, rfl⟩
      · dsimp only
        split
        · exact ⟨_, rfl⟩
        · cases hfail : ((s.extractHex 0#32).1.extractHex 0#32).1.fail with
          | true =>
              cases fuel with
              | zero =>
                  lia
              | succ fuel =>
                  rw [prepareMemoryLoop, if_pos hfail]
                  exact ⟨_, rfl⟩
          | false =>
              have hfirst : (s.extractHex 0#32).1.fail = false := by
                apply Bool.eq_false_iff.mpr
                intro hfirst
                rw [InStream.extractHex_of_fail hfirst, hfirst] at hfail
                cases hfail
              have hshorter := InStream.length_extractHex_lt hfirst
              have hshorter' := InStream.length_extractHex_lt hfail
              exact ih (by lia) _

theorem prepareMemoryLoop_numEntries (hm : mem.numEntries < 2 ^ 32) {fuel : Nat} {s : InStream}
    {result : Int × MemoryStore} (h : prepareMemoryLoop fuel s mem = some result) :
    result.2.numEntries = mem.numEntries := by
  induction fuel generalizing s mem with
  | zero =>
      cases h
  | succ fuel ih =>
      rw [prepareMemoryLoop] at h
      split at h
      · cases h
        rfl
      · dsimp only at h
        have hentries := MemoryStore.setMemValue_numEntries hm (s.extractHex 0#32).2
          ((s.extractHex 0#32).1.extractHex 0#32).2 wordSize
        split at h
        · cases h
          exact hentries
        · exact (ih (by rw [hentries]; exact hm) h).trans hentries

theorem prepareMemoryLoop_image {pairs : List (HexToken × HexToken)} {text : List Char}
    {eof : Bool} (h : ImageText pairs text) (heof : eof = true -> text = []) :
    prepareMemoryLoop (pairs.length + 2) { rest := text, eof := eof, fail := false } mem =
      some (mem.setUntilError (attemptedWrites pairs)) := by
  induction h generalizing mem eof with
  | done hspace =>
      rw [List.length_nil, Nat.zero_add, prepareMemoryLoop_end rfl hspace]
      unfold attemptedWrites imageWrites
      rw [List.map_nil, List.nil_append]
      unfold MemoryStore.setUntilError
      dsimp only
      split
      · rfl
      · rfl
  | @pair before between text pairs address value hbefore hbetween hne hend _ ih =>
      rcases List.exists_cons_of_ne_nil hne with ⟨d, rest, hcons⟩
      have heof' : eof = false := by
        cases eof with
        | false =>
            rfl
        | true =>
            exact absurd (heof rfl) (by simp [hcons])
      have hbreak : forall c, c ∈ (between ++ (value.text ++ text)).head? ->
          isSpace c = true := by
        intro c hc
        subst hcons
        cases hc
        exact hbetween _ List.mem_cons_self
      have hmore : (between ++ (value.text ++ text)).isEmpty = false := by
        rw [hcons]
        rfl
      have hwrites : attemptedWrites ((address, value) :: pairs) =
          ⟨address.word, value.word, wordSize⟩ :: attemptedWrites pairs := rfl
      subst heof'
      rw [List.length_cons, Nat.add_right_comm, prepareMemoryLoop, if_neg Bool.false_ne_true]
      dsimp only
      rw [address.extractHex hbefore hbreak, hmore]
      dsimp only
      rw [value.extractHex hbetween hend, hwrites, MemoryStore.setUntilError]
      dsimp only
      split
      · rfl
      · exact ih fun hempty => List.isEmpty_iff.mp hempty

end Loop

theorem validSize_of_mem_attemptedWrites {pairs : List (HexToken × HexToken)}
    {w : MemoryStore.Write} (h : w ∈ attemptedWrites pairs) :
    MemoryStore.validSize w.size = true := by
  unfold attemptedWrites imageWrites at h
  rcases List.mem_append.mp h with hpair | hlast
  · rcases List.mem_map.mp hpair with ⟨pair, _, rfl⟩
    rfl
  · rw [List.mem_singleton.mp hlast]
    rfl

/-- An image of any pairs of words, and behind them a zero for address 0, is applied up to the
first pair outside the memory, which is reported and of which the bytes that fit are written; each
byte is then that of the latest write to get there. -/
theorem initial_image_any (mem : MemoryStore) (hmem : mem.numEntries < 2 ^ 32)
    (pairs : List (HexToken × HexToken)) (text : List Char) (htext : ImageText pairs text) :
    exists code mem' done,
      (forall result, Prepares (some text) mem result <-> result = (code, mem')) ∧
        mem.Stops (attemptedWrites pairs) done code ∧
        forall address, mem'.contents address = mem.lastStored done address := by
  have hrun : prepareMemory _ (some text) mem = _ :=
    prepareMemoryLoop_image htext fun heof => absurd heof Bool.false_ne_true
  rcases MemoryStore.setUntilError_stops hmem fun w => validSize_of_mem_attemptedWrites with
    ⟨done, hstops, hdone⟩
  have hsizes : forall w, w ∈ done -> MemoryStore.validSize w.size = true := by
    intro w hw
    rcases hstops with ⟨_, rfl, _⟩ | ⟨_, before, v, after, hsplit, rfl, _, _⟩
    · exact validSize_of_mem_attemptedWrites hw
    · apply validSize_of_mem_attemptedWrites
      rw [hsplit]
      rcases List.mem_append.mp hw with hbefore | hlast
      · exact List.mem_append_left _ hbefore
      · rw [List.mem_singleton.mp hlast]
        exact List.mem_append_right _ List.mem_cons_self
  refine ⟨(mem.setUntilError (attemptedWrites pairs)).1,
    (mem.setUntilError (attemptedWrites pairs)).2, done,
    fun result => ⟨fun h => ?_, fun h => ?_⟩, hstops, fun address => ?_⟩
  · rcases h with ⟨fuel, hfuel⟩
    exact prepareMemoryLoop_unique hfuel hrun
  · rw [h]
    exact ⟨_, hrun⟩
  · rw [hdone]
    exact MemoryStore.contents_setAll_lastStored hmem hsizes address

def HexToken.digits : HexToken :=
  HexToken.plain ['1', '2', '3', '4', '5', '6', '7', '8'] (by decide) (by decide) (by decide)

/-- An image with two of four bytes inside the memory. -/
theorem initial_image_any_overrun :
    exists mem', Prepares (some (HexToken.eight.text ++ ([' '] ++ HexToken.digits.text)))
        (MemoryStore.cleared 0#32 10) (-EINVAL, mem') ∧
      mem'.contents 8#32 = some 0x12 ∧ mem'.contents 9#32 = some 0x34 := by
  rcases initial_image_any (MemoryStore.cleared 0#32 10) (by decide) _ _
    (imageText_single HexToken.eight HexToken.digits) with
    ⟨code, mem', done, hprepares, hstops, hcontents⟩
  rcases hstops with ⟨_, _, hall⟩ | ⟨rfl, before, w, after, hsplit, rfl, hbefore, _⟩
  · exact absurd (hall ⟨8#32, 0x12345678#32, wordSize⟩ List.mem_cons_self) (by decide)
  · cases before with
    | nil =>
        have hw : w = ⟨8#32, 0x12345678#32, wordSize⟩ := (List.cons.inj hsplit).1.symm
        subst hw
        refine ⟨mem', (hprepares _).mpr rfl, ?_, ?_⟩
        · rw [hcontents]
          decide
        · rw [hcontents]
          decide
    | cons v before =>
        have hv : v = ⟨8#32, 0x12345678#32, wordSize⟩ := (List.cons.inj hsplit).1.symm
        subst hv
        exact absurd (hbefore _ List.mem_cons_self) (by decide)

end PipeSim
