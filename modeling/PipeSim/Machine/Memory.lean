import PipeSim.Machine.Word

/-!
# The memory store

`MemoryStore` is a bounds-checked byte array with a base address.  Reads and
writes share one loop over the bytes of the access; a byte outside the array
raises an exception in the middle of that loop, so a failing access may already
have transferred some bytes.
-/

namespace PipeSim

def EINVAL : Int := 22

/-- `MEMORY_SIZE`: the memory of both simulators is 64 KB. -/
def memorySize : Nat := 0x10000

/-!
Enumerators of `MemEntrySize`, the sizes at which memory can be accessed.
-/

def byteSize : Word := 1#32

def halfSize : Word := 2#32

def wordSize : Word := 4#32

structure MemoryStore where
  startAddr : Word
  numEntries : Nat
  memArr : Fin numEntries -> Byte

namespace MemoryStore

/-- A store as its constructors fill it, before anything is loaded. -/
def cleared (startAddr : Word) (numEntries : Nat) : MemoryStore where
  startAddr := startAddr
  numEntries := numEntries
  memArr := fun _ => 0#8

/-- `memArr.at(i)` as a read: `none` when the exception is raised. -/
def at? (m : MemoryStore) (i : Word) : Option Byte :=
  if h : i.toNat < m.numEntries then some (m.memArr ⟨i.toNat, h⟩) else none

def setAt? (m : MemoryStore) (i : Word) (b : Byte) : Option MemoryStore :=
  if h : i.toNat < m.numEntries then
    some { m with memArr := Function.update m.memArr ⟨i.toNat, h⟩ b }
  else none

def byteShift (size i : Nat) : Nat := (size - 1 - i) * 8

/-- The reading loop from byte `i` on, with `count` bytes left to read; the flag
tells whether it ran to its end. -/
def getLoop (m : MemoryStore) (relativeAddr : Word) (size : Nat) :
    Nat -> Nat -> Word -> Bool × Word
  | 0, _, value => (true, value)
  | count + 1, i, value =>
      match m.at? (relativeAddr + BitVec.ofNat 32 i) with
      | none => (false, value)
      | some b =>
          m.getLoop relativeAddr size count (i + 1)
            (value ||| (b.setWidth 32 <<< byteShift size i))

def setLoop (relativeAddr value : Word) (size : Nat) :
    Nat -> Nat -> MemoryStore -> Bool × MemoryStore
  | 0, _, m => (true, m)
  | count + 1, i, m =>
      match m.setAt? (relativeAddr + BitVec.ofNat 32 i)
          (((value >>> byteShift size i) &&& 0xff#32).setWidth 8) with
      | none => (false, m)
      | some m' => setLoop relativeAddr value size count (i + 1) m'

def validSize (size : Word) : Bool :=
  size == byteSize || size == halfSize || size == wordSize

/-- `MemoryStore::getOrSetValue` with `get` set: the return code and the value
left in the reference argument. -/
def getMemValue (m : MemoryStore) (address value size : Word) : Int × Word :=
  if validSize size then
    let relativeAddr := address - m.startAddr
    match m.getLoop relativeAddr size.toNat size.toNat 0 0#32 with
    | (true, value') => (0, value')
    | (false, value') => (-EINVAL, value')
  else (-EINVAL, value)

/-- `MemoryStore::getOrSetValue` with `get` clear: the return code and the
memory afterwards. -/
def setMemValue (m : MemoryStore) (address value size : Word) : Int × MemoryStore :=
  if validSize size then
    let relativeAddr := address - m.startAddr
    match setLoop relativeAddr value size.toNat size.toNat 0 m with
    | (true, m') => (0, m')
    | (false, m') => (-EINVAL, m')
  else (-EINVAL, m)

end MemoryStore

abbrev MemImage := Fin memorySize -> Byte

def MemoryStore.ofImage (image : MemImage) : MemoryStore where
  startAddr := 0#32
  numEntries := memorySize
  memArr := image

def MemImage.ofWords (words : List Word) : MemImage := fun i =>
  (words.getD (i.val / 4) 0#32 >>> MemoryStore.byteShift 4 (i.val % 4)).setWidth 8

end PipeSim
