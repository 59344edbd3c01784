import PipeSim.Library.InStream
import PipeSim.Machine.WriteHistory

/-!
# Initial memory images

`prepareMemory` writes the pairs of words of a file to the memory.  Its loop tests the
stream in front of the two extractions, so it runs once more behind the last pair, with
both variables still at zero, and clears the word at address 0.
-/

namespace PipeSim

open Library

def prepareMemoryLoop : Nat -> InStream -> MemoryStore -> Option (Int × MemoryStore)
  | 0, _, _ => none
  | fuel + 1, initMem, mem =>
      if initMem.fail then some (0, mem)
      else
        let curVal := 0#32
        let addr := 0#32
        let (initMem, addr) := initMem.extractHex addr
        let (initMem, curVal) := initMem.extractHex curVal
        let (ret, mem) := mem.setMemValue addr curVal wordSize
        if ret ≠ 0 then some (-EINVAL, mem)
        else prepareMemoryLoop fuel initMem mem

/-- `prepareMemory` on the contents of the file `init_mem_image`, `none` when there is no
such file. -/
def prepareMemory (fuel : Nat) (file : Option (List Char)) (mem : MemoryStore) :
    Option (Int × MemoryStore) :=
  prepareMemoryLoop fuel (InStream.ofFile file) mem

/-- The text consists of the given pairs of words, each word set off by white space. -/
inductive ImageText : List (HexToken × HexToken) -> List Char -> Prop where
  | done {space : List Char} (hspace : forall c, c ∈ space -> isSpace c = true) :
      ImageText [] space
  | pair {before between text : List Char} {pairs : List (HexToken × HexToken)}
      (address value : HexToken) (hbefore : forall c, c ∈ before -> isSpace c = true)
      (hbetween : forall c, c ∈ between -> isSpace c = true) (hne : between ≠ [])
      (hend : forall c, c ∈ text.head? -> isSpace c = true) (h : ImageText pairs text) :
      ImageText ((address, value) :: pairs)
        (before ++ (address.text ++ (between ++ (value.text ++ text))))

def imageWrites (pairs : List (HexToken × HexToken)) : List MemoryStore.Write :=
  pairs.map fun pair => ⟨pair.1.word, pair.2.word, wordSize⟩

def Prepares (file : Option (List Char)) (mem : MemoryStore) (result : Int × MemoryStore) :
    Prop :=
  exists fuel, prepareMemory fuel file mem = some result

/-!
## Writes inside the memory
-/

namespace MemoryStore

variable {m : MemoryStore}

theorem accepts_of_inside (hm : m.numEntries < 2 ^ 32) {ws : List Write}
    (h : forall w, w ∈ ws -> validSize w.size = true ∧ m.Inside w.address w.size) :
    m.Accepts ws := by
  induction ws generalizing m with
  | nil =>
      trivial
  | cons w ws ih =>
      have hstart := setMemValue_startAddr hm w.address w.value w.size
      have hentries := setMemValue_numEntries hm w.address w.value w.size
      constructor
      · rw [setMemValue_code hm, accessCode_eq_zero_iff]
        exact h w List.mem_cons_self
      · apply ih
        · rw [hentries]
          exact hm
        · intro v hv
          have hinside := h v (List.mem_cons_of_mem w hv)
          unfold Inside offset at hinside ⊢
          rw [hstart, hentries]
          exact hinside

theorem setMemValue_eq_self_iff (hm : m.numEntries < 2 ^ 32) {address value size : Word}
    (hsize : validSize size = true) :
    m.setMemValue address value size = (0, m) <->
      m.Inside address size ∧ forall b : Word, (b - address).toNat < size.toNat ->
        m.contents b =
          some (BigEndian.digit 256 size.toNat value.toNat (b - address).toNat) := by
  constructor
  · intro h
    have hcode : (m.setMemValue address value size).1 = 0 := by
      rw [h]
    have hinside := hcode
    rw [setMemValue_code hm, accessCode_eq_zero_iff] at hinside
    refine ⟨hinside.2, fun b hb => ?_⟩
    have hcontents := contents_setMemValue hm hcode b
    rw [h, if_pos hb] at hcontents
    exact hcontents
  · intro h
    rcases h with ⟨hinside, hbytes⟩
    have hall := (fittingAt_eq_iff hsize address).mpr hinside
    rw [setMemValue_eq hm hsize, hall, (accessCode_eq_zero_iff m address size).mpr
      ⟨hsize, hinside⟩]
    congr 1
    unfold Inside at hinside
    rw [poke_eq_self_iff (by lia)]
    intro i hi
    have hfour := (validSize_bounds hsize).2
    have hposition : (address + BitVec.ofNat 32 i - address).toNat = i := by
      have hcancel : address + BitVec.ofNat 32 i - address = BitVec.ofNat 32 i := by
        grind
      rw [hcancel, BitVec.toNat_ofNat, Nat.mod_eq_of_lt (by lia)]
    have hbyte := hbytes (address + BitVec.ofNat 32 i) (by rw [hposition]; exact hi)
    unfold contents at hbyte
    rw [hposition, offset_add (by lia), if_pos (by lia)] at hbyte
    rw [toNat_byteOf]
    exact (Option.some.inj hbyte).symm

theorem setMemValue_zero_eq_self_iff (hm : m.numEntries < 2 ^ 32) :
    m.setMemValue 0#32 0#32 wordSize = (0, m) <->
      m.Inside 0#32 wordSize ∧ forall i, i < 4 -> m.contents (BitVec.ofNat 32 i) = some 0 := by
  have hdigit : forall b : Word, BigEndian.digit 256 wordSize.toNat (0#32 : Word).toNat
      b.toNat = 0 := by
    intro b
    unfold BigEndian.digit
    rw [BitVec.toNat_ofNat, Nat.zero_mod, Nat.zero_div, Nat.zero_mod]
  rw [setMemValue_eq_self_iff hm rfl]
  simp only [BitVec.sub_zero, hdigit]
  refine and_congr_right fun _ => ⟨fun h i hi => ?_, fun h b hb => ?_⟩
  · apply h
    rw [BitVec.toNat_ofNat, Nat.mod_eq_of_lt (Nat.lt_trans hi (by decide))]
    exact hi
  · have hbyte := h b.toNat hb
    rw [BitVec.ofNat_toNat, BitVec.setWidth_eq] at hbyte
    exact hbyte

end MemoryStore

/-!
## The loop
-/

section Loop

variable {mem : MemoryStore} {pairs : List (HexToken × HexToken)} {text : List Char}

theorem prepareMemoryLoop_unique {fuel fuel' : Nat} {s : InStream}
    {r r' : Int × MemoryStore} (h : prepareMemoryLoop fuel s mem = some r)
    (h' : prepareMemoryLoop fuel' s mem = some r') : r = r' := by
  induction fuel generalizing fuel' s mem with
  | zero =>
      cases h
  | succ fuel ih =>
      cases fuel' with
      | zero =>
          cases h'
      | succ fuel' =>
          rw [prepareMemoryLoop] at h h'
          split at h
          · rename_i hfail
            rw [if_pos hfail] at h'
            exact Option.some.inj (h.symm.trans h')
          · rename_i hfail
            rw [if_neg hfail] at h'
            dsimp only at h h'
            split at h
            · rename_i hret
              rw [if_pos hret] at h'
              exact Option.some.inj (h.symm.trans h')
            · rename_i hret
              rw [if_neg hret] at h'
              exact ih h h'

theorem prepareMemoryLoop_end {s : InStream} (hfail : s.fail = false)
    (hspace : forall c, c ∈ s.rest -> isSpace c = true) :
    prepareMemoryLoop 2 s mem =
      some (if (mem.setMemValue 0#32 0#32 wordSize).1 ≠ 0 then -EINVAL else 0,
        (mem.setMemValue 0#32 0#32 wordSize).2) := by
  have hend := InStream.extractHex_end hspace 0#32
  rw [prepareMemoryLoop, if_neg (by rw [hfail]; exact Bool.false_ne_true)]
  dsimp only
  rw [InStream.extractHex_of_fail hend.1, hend.2]
  dsimp only
  split
  · rfl
  · rw [prepareMemoryLoop, if_pos hend.1]

theorem prepareMemoryLoop_pairs {eof : Bool} (h : ImageText pairs text)
    (heof : eof = true -> text = []) (haccepts : mem.Accepts (imageWrites pairs)) :
    prepareMemoryLoop (pairs.length + 2) { rest := text, eof := eof, fail := false } mem =
      some (if ((mem.setAll (imageWrites pairs)).setMemValue 0#32 0#32 wordSize).1 ≠ 0
          then -EINVAL else 0,
        ((mem.setAll (imageWrites pairs)).setMemValue 0#32 0#32 wordSize).2) := by
  induction h generalizing mem eof with
  | done hspace =>
      exact prepareMemoryLoop_end rfl hspace
  | @pair before between text pairs address value hbefore hbetween hne hend _ ih =>
      have heof' : eof = false := by
        cases eof with
        | false =>
            rfl
        | true =>
            rcases List.exists_cons_of_ne_nil hne with ⟨c, between, rfl⟩
            exact absurd (heof rfl) (by simp)
      have hbreak : forall c, c ∈ (between ++ (value.text ++ text)).head? ->
          isSpace c = true := by
        intro c hc
        rcases List.exists_cons_of_ne_nil hne with ⟨d, rest, rfl⟩
        cases hc
        exact hbetween _ List.mem_cons_self
      have hmore : (between ++ (value.text ++ text)).isEmpty = false := by
        rcases List.exists_cons_of_ne_nil hne with ⟨d, rest, rfl⟩
        rfl
      subst heof'
      rw [List.length_cons, Nat.add_right_comm, prepareMemoryLoop,
        if_neg Bool.false_ne_true]
      dsimp only
      rw [address.extractHex hbefore hbreak, hmore]
      dsimp only
      rw [value.extractHex hbetween hend]
      dsimp only
      rw [if_neg (by rw [not_not]; exact haccepts.1)]
      exact ih (fun hempty => List.isEmpty_iff.mp hempty) haccepts.2

/-- `prepareMemory` performs the writes of the image and one more. -/
theorem prepares_iff (h : ImageText pairs text) (haccepts : mem.Accepts (imageWrites pairs))
    (result : Int × MemoryStore) :
    Prepares (some text) mem result <->
      result = (if ((mem.setAll (imageWrites pairs)).setMemValue 0#32 0#32 wordSize).1 ≠ 0
          then -EINVAL else 0,
        ((mem.setAll (imageWrites pairs)).setMemValue 0#32 0#32 wordSize).2) := by
  have hrun : prepareMemoryLoop _ (InStream.ofFile (some text)) mem = _ :=
    prepareMemoryLoop_pairs h (fun heof => absurd heof Bool.false_ne_true) haccepts
  constructor
  · intro h
    rcases h with ⟨fuel, hfuel⟩
    exact prepareMemoryLoop_unique hfuel hrun
  · intro heq
    subst heq
    exact ⟨_, hrun⟩

end Loop

theorem exact_iff {mem : MemoryStore} {r : Int × MemoryStore} :
    (if r.1 ≠ 0 then -EINVAL else 0, r.2) = (0, mem) <-> r = (0, mem) := by
  cases r with
  | mk code mem' =>
      rw [Prod.mk.injEq, Prod.mk.injEq]
      refine and_congr_left fun _ => ?_
      dsimp only
      split
      · rename_i hcode
        exact iff_of_false (by decide) hcode
      · rename_i hcode
        exact iff_of_true rfl (not_not.mp hcode)

/-- An image inside the memory is applied exactly when the word at address 0 is inside too
and each of its bytes is zero behind the listed writes. -/
theorem initial_image_exact_iff (mem : MemoryStore) (hmem : mem.numEntries < 2 ^ 32)
    (pairs : List (HexToken × HexToken)) (text : List Char) (htext : ImageText pairs text)
    (hinside : forall pair, pair ∈ pairs -> mem.Inside pair.1.word wordSize) :
    Prepares (some text) mem (0, mem.setAll (imageWrites pairs)) <->
      mem.Inside 0#32 wordSize ∧
        forall i, i < 4 ->
          mem.latestByte (imageWrites pairs) (BitVec.ofNat 32 i) = some 0 := by
  have haccepts : mem.Accepts (imageWrites pairs) := by
    apply MemoryStore.accepts_of_inside hmem
    intro w hw
    rcases List.mem_map.mp hw with ⟨pair, hpair, rfl⟩
    exact ⟨rfl, hinside pair hpair⟩
  have hcontents := fun address => MemoryStore.contents_setAll hmem haccepts address
  have hstart := MemoryStore.setAll_startAddr hmem (imageWrites pairs)
  have hentries := (hcontents 0#32).1
  have hsame : (mem.setAll (imageWrites pairs)).Inside 0#32 wordSize <->
      mem.Inside 0#32 wordSize := by
    unfold MemoryStore.Inside MemoryStore.offset
    rw [hstart, hentries]
  rw [prepares_iff htext haccepts, eq_comm, exact_iff, MemoryStore.setMemValue_zero_eq_self_iff
    (by rw [hentries]; exact hmem), hsame]
  simp only [hcontents]

def HexToken.plain (digits : List Char) (hne : digits ≠ [])
    (hdigits : digits.all (Numeral.isDigit 16) = true)
    (hlt : Numeral.value 16 digits < 2 ^ 32) : HexToken where
  base := []
  digits := digits
  base_valid := List.mem_cons_self
  digits_ne_nil := hne
  digits_valid := List.all_eq_true.mp hdigits
  value_lt := hlt

def HexToken.eight : HexToken := HexToken.plain ['8'] (by decide) (by decide) (by decide)

def HexToken.zero : HexToken := HexToken.plain ['0'] (by decide) (by decide) (by decide)

def HexToken.answer : HexToken :=
  HexToken.plain ['2', 'a'] (by decide) (by decide) (by decide)

theorem imageText_single (address value : HexToken) :
    ImageText [(address, value)] (address.text ++ ([' '] ++ value.text)) := by
  have hblank : forall c, c ∈ [' '] -> isSpace c = true := List.all_eq_true.mp (by decide)
  have himage := @ImageText.pair [] [' '] [] [] address value (by simp) hblank (by decide)
    (by simp) (ImageText.done (by simp))
  simpa using himage

/-- An image that stays clear of address 0. -/
theorem initial_image_exact_at_eight :
    Prepares (some (HexToken.eight.text ++ ([' '] ++ HexToken.answer.text)))
      (MemoryStore.cleared 0#32 16)
      (0, (MemoryStore.cleared 0#32 16).setAll
        (imageWrites [(HexToken.eight, HexToken.answer)])) :=
  (initial_image_exact_iff (MemoryStore.cleared 0#32 16) (by decide) _ _ (imageText_single _ _)
    (by decide)).mpr ⟨by decide, by decide⟩

/-- The image `0 2a` leaves the word at address 0 clear. -/
theorem initial_image_cleared :
    ¬ forall (mem : MemoryStore) (pairs : List (HexToken × HexToken)) (text : List Char),
      mem.numEntries < 2 ^ 32 -> ImageText pairs text ->
        (forall pair, pair ∈ pairs -> mem.Inside pair.1.word wordSize) ->
          Prepares (some text) mem (0, mem.setAll (imageWrites pairs)) := by
  intro h
  have himage := imageText_single HexToken.zero HexToken.answer
  have hresult := h (MemoryStore.cleared 0#32 16) _ _ (by decide) himage (by decide)
  rw [prepares_iff himage (by decide), eq_comm, exact_iff,
    MemoryStore.setMemValue_zero_eq_self_iff (by decide)] at hresult
  exact absurd (hresult.2 3 (by decide)) (by decide)

end PipeSim
