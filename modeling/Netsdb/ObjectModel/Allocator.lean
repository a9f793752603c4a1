import Mathlib.Data.List.Sort
import Mathlib.Data.Nat.Log
import Mathlib.Logic.Function.Basic
import Mathlib.Algebra.Group.Nat.Defs
import Mathlib.Algebra.Group.Int.Defs

/-!
# The allocator (`objectModel/headers/Allocator.h`, `Allocator.cc`)

Addresses, sizes and offsets are naturals (`size_t` sums of an offset in a block and a chunk
size stay inside the address space); `unsigned` values are reduced with `u32`.  The memory an
allocation block consists of appears as what the code stores in it:

* `lastUsed w`, `refCount w`   `LAST_USED` and `ALLOCATOR_REF_COUNT` of the block at `w`;
* `chunkSize c`                `GET_CHUNK_SIZE` of the chunk at `c`.

`heap` lists the addresses `malloc` has returned and `free` has not taken back, and `badFree`
records a call of `free` on any other address.

* `Allocator.getRAM`, `Allocator.freeRAM`   the two policies (`defaultGetRAM`, `fastGetRAM`,
  `defaultFreeRAM`) behind `setPolicy`;
* `Allocator.setupBlock`                     a new active block;
* `Allocator.temporarilyUse...`, `Allocator.restoreAllocationBlock`   suspend and restore.
-/

namespace Netsdb

/-- conversion to `unsigned` -/
def u32 (n : Nat) : Nat := n % 2^32

theorem u32_of_lt {n : Nat} (h : n < 2^32) : u32 n = n := Nat.mod_eq_of_lt h

theorem u32_lt (n : Nat) : u32 n < 2^32 := Nat.mod_lt _ (Nat.two_pow_pos _)

/-- conversion to `int` -/
def i32 (x : Int) : Int := (x + 2 ^ 31) % 2 ^ 32 - 2 ^ 31

/-- conversion to `int64_t` -/
def i64 (x : Int) : Int := (x + 2 ^ 63) % 2 ^ 64 - 2 ^ 63

/-- conversion of an `int` to `size_t` -/
def sizeT (x : Int) : Nat := (x % 2 ^ 64).toNat

/-- a count goes down by one: adding `2^32 - 1` -/
theorem u32_pred {n : Nat} (h : n < 2^32) : u32 (n + 1 + (2^32 - 1)) = n := by
  unfold u32
  omega

/-- `HEADER_SIZE`: `sizeof (unsigned) + 2 * sizeof (size_t)` -/
def headerSize : Nat := 20

/-- `CHUNK_HEADER_SIZE`: `sizeof (unsigned)` -/
def chunkHeaderSize : Nat := 4

/-- `__builtin_clz` of a nonzero `unsigned` -/
def leadingZeros (x : Nat) : Nat := 31 - Nat.log2 x

/-- `unsigned bytesNeeded`: chunk header and request, rounded up to a multiple of four -/
def bytesNeeded (howMuch : Nat) : Nat :=
  let b := u32 (chunkHeaderSize + howMuch)
  if b % 4 ≠ 0 then u32 (b + (4 - b % 4)) else b

/-- the exact number of bytes, before any conversion to `unsigned` -/
def roundedRequest (howMuch : Nat) : Nat := (chunkHeaderSize + howMuch + 3) / 4 * 4

inductive AllocatorPolicy
  | defaultAllocator
  | noReuseAllocator
  | noReferenceCountAllocator
deriving DecidableEq, Repr

structure InactiveAllocationBlock where
  start : Nat
  end_ : Nat
deriving DecidableEq, Repr

structure AllocatorState where
  activeRAM : Nat
  numBytes : Nat
  throwException : Bool
  curBlockUserSupplied : Bool
  /-- the free chunks, 32 lists -/
  chunks : Nat → List Nat

structure Allocator where
  myState : AllocatorState
  allInactives : List InactiveAllocationBlock
  policy : AllocatorPolicy
  lastUsed : Nat → Nat
  refCount : Nat → Nat
  chunkSize : Nat → Nat
  heap : List Nat
  badFree : Bool

/-- how a request for RAM ends -/
inductive RamResult
  | ret (addr : Nat)
  | nullptr
  | notEnoughSpace
deriving DecidableEq, Repr

/-! ## searching the free chunks -/

/-- the inner loop: `j` goes down from `n - 1` to `0` -/
def fitFrom (fits : Nat → Bool) : Nat → Option Nat
  | 0 => none
  | j + 1 => if fits j then some j else fitFrom fits j

/-- the outer loop over the lists `i, i + 1, .., i + n - 1` -/
def findChunk (size : Nat → Nat) (bytes : Nat) (chunks : Nat → List Nat) :
    Nat → Nat → Option (Nat × Nat)
  | 0, _ => none
  | n + 1, i =>
    match fitFrom (fun j => bytes ≤ size ((chunks i).getD j 0)) (chunks i).length with
    | some j => some (i, j)
    | none => findChunk size bytes chunks n (i + 1)

/-- `std::lower_bound` by `operator<` and the test that the block found is not behind `here` -/
def lookupInactive (l : List InactiveAllocationBlock) (here : Nat) :
    Option InactiveAllocationBlock :=
  match l.find? fun b => ¬ b.end_ < here with
  | some i => if i.start > here then none else some i
  | none => none

/-- `operator<` between blocks compares their ends; this is the order it sorts by -/
def InactiveAllocationBlock.EndLE (b c : InactiveAllocationBlock) : Prop := b.end_ ≤ c.end_

instance : DecidableRel InactiveAllocationBlock.EndLE := fun b c => Nat.decLe b.end_ c.end_

/-- `emplace_back` and `std::sort` -/
def addInactive (l : List InactiveAllocationBlock) (start numBytes : Nat) :
    List InactiveAllocationBlock :=
  (l ++ [InactiveAllocationBlock.mk start (start + numBytes)]).insertionSort
    InactiveAllocationBlock.EndLE

namespace Allocator

/-- `free` of the C library -/
def free (a : Allocator) (p : Nat) : Allocator :=
  if p ∈ a.heap then { a with heap := a.heap.erase p } else { a with badFree := true }

/-- an address returned by `malloc` -/
def malloc (a : Allocator) (p : Nat) : Allocator := { a with heap := p :: a.heap }

def setRefCount (a : Allocator) (w n : Nat) : Allocator :=
  { a with refCount := Function.update a.refCount w n }

/-- `ALLOCATOR_REF_COUNT++` of the block at `w` -/
def incRef (a : Allocator) (w : Nat) : Allocator := a.setRefCount w (u32 (a.refCount w + 1))

/-- `ALLOCATOR_REF_COUNT--` of the block at `w` -/
def decRef (a : Allocator) (w : Nat) : Allocator :=
  a.setRefCount w (u32 (a.refCount w + (2^32 - 1)))

def setChunks (a : Allocator) (i : Nat) (l : List Nat) : Allocator :=
  { a with myState := { a.myState with chunks := Function.update a.myState.chunks i l } }

def setPolicy (a : Allocator) (p : AllocatorPolicy) : Allocator := { a with policy := p }

/-- is the address in the current allocation block? -/
def contains (a : Allocator) (w : Nat) : Bool :=
  decide (a.myState.activeRAM ≤ w) && decide (w < a.myState.activeRAM + a.myState.numBytes)

def isManaged (a : Allocator) (here : Nat) : Bool :=
  a.contains here || (lookupInactive a.allInactives here).isSome

/-! ## `getRAM` and `freeRAM` -/

/-- the common end of `defaultGetRAM` and `fastGetRAM`: carve a chunk out behind `LAST_USED` -/
def carve (a : Allocator) (bytes : Nat) : RamResult × Allocator :=
  let w := a.myState.activeRAM
  if a.lastUsed w + bytes > a.myState.numBytes then
    (if a.myState.throwException then .notEnoughSpace else .nullptr, a)
  else
    let res := a.lastUsed w + w
    let a' := { a with
      lastUsed := Function.update a.lastUsed w (a.lastUsed w + bytes)
      chunkSize := Function.update a.chunkSize res bytes }
    (.ret (res + chunkHeaderSize), a'.incRef w)

/-- a free chunk is handed out again, whole -/
def reuse (a : Allocator) (i j : Nat) : RamResult × Allocator :=
  let chunk := (a.myState.chunks i).getD j 0
  let a' := a.setChunks i ((a.myState.chunks i).eraseIdx j)
  (.ret (chunk + chunkHeaderSize), a'.incRef a.myState.activeRAM)

def defaultGetRAM (a : Allocator) (howMuch : Nat) : RamResult × Allocator :=
  let bytes := bytesNeeded howMuch
  let first := 31 - leadingZeros bytes
  match findChunk a.chunkSize bytes a.myState.chunks (32 - first) first with
  | some (i, j) => a.reuse i j
  | none => a.carve bytes

def fastGetRAM (a : Allocator) (howMuch : Nat) : RamResult × Allocator :=
  a.carve (bytesNeeded howMuch)

def defaultFreeRAM (a : Allocator) (here : Nat) : Allocator :=
  if a.contains here then
    let chunk := here - chunkHeaderSize
    let i := 31 - leadingZeros (a.chunkSize chunk)
    (a.setChunks i (a.myState.chunks i ++ [chunk])).decRef a.myState.activeRAM
  else
    match lookupInactive a.allInactives here with
    | some b =>
      let a' := a.decRef b.start
      if a'.refCount b.start = 0 then
        { a'.free b.start with allInactives := a'.allInactives.erase b }
      else a'
    -- the object was allocated in some other way: forget about it
    | none => a

def getRAM (a : Allocator) (howMuch : Nat) : RamResult × Allocator :=
  match a.policy with
  | .defaultAllocator => a.defaultGetRAM howMuch
  | .noReuseAllocator => a.fastGetRAM howMuch
  | .noReferenceCountAllocator => a.defaultGetRAM howMuch

def freeRAM (a : Allocator) (here : Nat) : Allocator :=
  match a.policy with
  | .defaultAllocator => a.defaultFreeRAM here
  | .noReuseAllocator => a.defaultFreeRAM here
  | .noReferenceCountAllocator => a

/-! ## blocks -/

/-- an active block that the allocator owns becomes inactive, or is freed when it has no
objects -/
def retireActive (a : Allocator) : Allocator :=
  let w := a.myState.activeRAM
  if a.refCount w ≠ 0 then
    { a with allInactives := addInactive a.allInactives w a.myState.numBytes }
  else a.free w

/-- `none`: the process exits -/
def setupBlock (a : Allocator) (place numBytesIn : Nat) (throwExceptionOnFail : Bool) :
    Option Allocator :=
  if numBytesIn < headerSize then none
  else if place = 0 then none
  else
    let a' :=
      if a.myState.activeRAM ≠ 0 ∧ a.myState.curBlockUserSupplied = false then a.retireActive
      else a
    some { a' with
      myState := ⟨place, numBytesIn, throwExceptionOnFail, false, fun _ => []⟩
      lastUsed := Function.update a'.lastUsed place headerSize
      refCount := Function.update a'.refCount place 0 }

def setupUserSuppliedBlock (a : Allocator) (place numBytesIn : Nat)
    (throwExceptionOnFail : Bool) : Option Allocator :=
  (a.setupBlock place numBytesIn throwExceptionOnFail).map fun a' =>
    { a' with myState := { a'.myState with curBlockUserSupplied := true } }

/-- the two statements both overloads of `temporarilyUseBlockForAllocations` start with: the
current block counts as the allocator's own and takes a phantom reference -/
def suspendActive (a : Allocator) : Allocator :=
  ({ a with myState := { a.myState with curBlockUserSupplied := false } }).incRef
    a.myState.activeRAM

/-- `temporarilyUseBlockForAllocations(void*, size_t)` -/
def temporarilyUseBlockForAllocations (a : Allocator) (putMeHere numBytesAvailable : Nat) :
    Option (AllocatorState × Allocator) :=
  (a.suspendActive.setupUserSuppliedBlock putMeHere numBytesAvailable true).map fun a' =>
    (a.myState, a')

/-- `temporarilyUseBlockForAllocations(size_t)`; `putMeHere` is what `malloc` returns -/
def temporarilyUseNewBlockForAllocations (a : Allocator) (putMeHere numBytesAvailable : Nat) :
    Option (AllocatorState × Allocator) :=
  ((a.suspendActive.malloc putMeHere).setupBlock putMeHere numBytesAvailable true).map fun a' =>
    (a.myState, a')

def restoreAllocationBlock (a : Allocator) (useMe : AllocatorState) : Allocator :=
  let a' := if a.myState.curBlockUserSupplied = false then a.retireActive else a
  ({ a' with
    myState := useMe
    allInactives := a'.allInactives.eraseP fun b => b.start = useMe.activeRAM }).decRef
    useMe.activeRAM

/-- the members before the constructor's body; what memory holds is arbitrary -/
def blank (lastUsed refCount chunkSize : Nat → Nat) : Allocator :=
  ⟨⟨0, 0, true, false, fun _ => []⟩, [], .defaultAllocator, lastUsed, refCount, chunkSize, [],
    false⟩

/-- `MultiPolicyAllocator()`; `putMeHere` is what `malloc(1024)` returns -/
def create (putMeHere : Nat) (lastUsed refCount chunkSize : Nat → Nat) : Option Allocator :=
  ((blank lastUsed refCount chunkSize).malloc putMeHere).setupBlock putMeHere 1024 true

end Allocator

end Netsdb
