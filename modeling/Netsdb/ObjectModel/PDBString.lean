import Mathlib.Logic.Function.Basic
import Netsdb.Lib.Codec
import Netsdb.ObjectModel.Allocator

/-!
# Strings with inline storage (`PDBString.cc`)

A `String` is the storage of a `Handle<char>`: the 8 bytes of its offset and its type information.
The type information is the tag.  It is the size, the terminating zero byte included: as it is when
the 8 bytes are the characters, and negated when they are the offset of a `RefCountedObject<char>`.

* `PDBString`, `CharBody`     a string, and the characters of a long one;
* `StringObj`, `Act`                what the members of one string read and change, and how they stop;
* `assignText`, `assignString`  the three `operator=`;
* `constructText`, …          the constructors.

An answer of the allocator is a parameter, `Ram`.  Reading or writing where no object is, or past
the end of an object, is the stop `fault`.
-/

namespace Netsdb

/-- the bytes of a C string, without the zero byte at its end -/
abbrev Text := List UInt8

/-! ## strings -/

structure PDBString where
  /-- where the object is -/
  addr : Int
  /-- the allocation block it is in; `none`: it is on the stack -/
  block : Option Nat
  /-- characters or an offset -/
  bytes : List UInt8
  info : Int
deriving DecidableEq, Repr

/-- a `RefCountedObject<char>` with its extra storage -/
structure CharBody where
  block : Nat
  refCount : Nat
  chars : List UInt8
deriving DecidableEq, Repr

namespace CharBody

/-- `NUM_COPIES++` -/
def inc (b : CharBody) : CharBody := { b with refCount := u32 (b.refCount + 1) }

/-- `NUM_COPIES--` -/
def dec (b : CharBody) : CharBody := { b with refCount := u32 (b.refCount + (2 ^ 32 - 1)) }

/-- what is left after `NUM_COPIES--`: the RAM is freed with the last reference -/
def release (b : CharBody) : Option CharBody := if b.dec.refCount = 0 then none else some b.dec

end CharBody

/-- the `RefCountedObject<char>`s, by address -/
abbrev Bodies := Int → Option CharBody

namespace PDBString

def getOffset (s : PDBString) : Int := i64 (Codec.ofLe s.bytes)

def setOffset (s : PDBString) (x : Int) : PDBString := { s with bytes := Codec.le 8 (sizeT x) }

def setExactTypeInfoValue (s : PDBString) (x : Int) : PDBString := { s with info := x }

def getTarget (s : PDBString) : Int := s.addr + s.getOffset

/-- the body at `getTarget`, with its address -/
def body? (s : PDBString) (h : Bodies) : Option (Int × CharBody) :=
  (h s.getTarget).map fun b => (s.getTarget, b)

/-- the bytes from `c_str()` on, as far as they belong to the string -/
def buffer (s : PDBString) (h : Bodies) : Option (List UInt8) :=
  if 0 ≤ s.info then some (s.bytes ++ Codec.le 4 (sizeT s.info))
  else (s.body? h).map fun x => x.2.chars

/-- what a C function reads at `c_str()`; `none`: it finds no zero byte -/
def cStr (s : PDBString) (h : Bodies) : Option Text :=
  (s.buffer h).bind fun bs => if (0 : UInt8) ∈ bs then some (bs.takeWhile (· ≠ 0)) else none

def size (s : PDBString) : Int := if 0 ≤ s.info then s.info else -s.info

/-- `operator==`: `strcmp` finds no difference -/
def eq (s s' : PDBString) (h : Bodies) : Option Bool :=
  (s.cStr h).bind fun t => (s'.cStr h).map fun t' => decide (t = t')

/-- `hashMe` hashes the C string with `std::hash`, whatever length it is given -/
def hash (stdHash : Text → Nat) (s : PDBString) (h : Bodies) : Option Nat :=
  (s.cStr h).map stdHash

end PDBString

/-! ## the members of a string -/

inductive Stop
  | notEnoughSpace
  | fault
deriving DecidableEq, Repr

/-- what `getRAM` does -/
inductive Ram
  | granted (a : Int)
  /-- the block is full and throws -/
  | refused
  /-- the block is full, and was made not to throw: `nullptr` -/
  | null
deriving DecidableEq, Repr

structure StringObj where
  bodies : Bodies
  /-- the current allocation block -/
  active : Nat
  str : PDBString

/-- after an exception the changes stay -/
abbrev Act := EStateM Stop StringObj

namespace StringObj

def setStr (o : StringObj) (s : PDBString) : StringObj := { o with str := s }

def setBody (o : StringObj) (a : Int) (b : Option CharBody) : StringObj :=
  { o with bodies := Function.update o.bodies a b }

end StringObj

namespace PDBString

def setOffsetTo (x : Int) : Act Unit := modify fun o => o.setStr (o.str.setOffset x)

def setInfo (x : Int) : Act Unit := modify fun o => o.setStr (o.str.setExactTypeInfoValue x)

def incRefCount : Act Unit := fun o =>
  match o.str.body? o.bodies with
  | some (a, b) => .ok () (o.setBody a (some b.inc))
  | none => .error .fault o

/-- `decRefCount` of the target of `old`; `deleteConstituentObject` does nothing to characters -/
def decRefCount (old : PDBString) : Act Unit := fun o =>
  match old.body? o.bodies with
  | some (a, b) => .ok () (o.setBody a b.release)
  | none => .error .fault o

/-- `GET_OLD_TARGET` and `DEC_OLD_REF_COUNT` -/
def decOldRefCount (old : PDBString) : Act Unit :=
  if old.getOffset = -1 then pure () else decRefCount old

/-- `Handle::operator=` from `nullptr` -/
def assignNull : Act Unit := do
  let o ← get
  decOldRefCount o.str
  setOffsetTo (-1)

/-- `getRAM` for `n` characters, and the new object with the reference count `count`; its
characters are written before they are read -/
def makeChars (n count : Nat) : Ram → Act (Option Int)
  | .granted a => fun o =>
    .ok (some a) (o.setBody a (some ⟨o.active, count, List.replicate n 0⟩))
  | .refused => throw .notEnoughSpace
  | .null => pure none

/-- `Handle::operator=` from a `RefCountedObject` that has just been made in the current block, so
that it is not copied -/
def assignMade : Option Int → Act Unit
  | some a => do
    let o ← get
    setInfo (-1)
    setOffsetTo (a - o.str.addr)
    incRefCount
    decOldRefCount o.str
  | none => do
    let o ← get
    setInfo (-1)
    decOldRefCount o.str
    setOffsetTo (-1)

/-- `n` bytes from `src` written over `bs`, from `start` on -/
def splice (bs : List UInt8) (start : Nat) (src : List UInt8) (n : Nat) : List UInt8 :=
  bs.take start ++ src.take n ++ bs.drop (start + n)

/-- `memmove(c_str() + start, src, len)`, with `len` converted to `size_t` -/
def memmove (start : Nat) (src : List UInt8) (len : Int) : Act Unit := fun o =>
  if src.length < sizeT len then .error .fault o
  else if 0 ≤ o.str.info then
    if start + sizeT len ≤ 8 then
      .ok () (o.setStr { o.str with bytes := splice o.str.bytes start src (sizeT len) })
    else .error .fault o
  else
    match o.str.body? o.bodies with
    | some (a, b) =>
      if start + sizeT len ≤ b.chars.length then
        .ok () (o.setBody a (some { b with chars := splice b.chars start src (sizeT len) }))
      else .error .fault o
    | none => .error .fault o

/-- `CAN_FIT_IN_DATA` -/
def canFitInData (len : Int) : Bool := decide (len ≤ 8)

/-- the `int len` of a text: its length and one, where the addition wraps around -/
def intLen (t : Text) : Int := i32 (t.length + 1)

/-- `if (data().getExactTypeInfoValue() < 0) data() = nullptr;` -/
def dropLong : Act Unit := fun o => if o.str.info < 0 then assignNull o else .ok () o

/-- `if (data().getExactTypeInfoValue() >= 0) data().setOffset(-1);` -/
def dropInline : Act Unit := fun o => if 0 ≤ o.str.info then setOffsetTo (-1) o else .ok () o

/-- the body of the assignments from characters -/
def assignText (t : Text) (ram : Ram) : Act Unit :=
  if canFitInData (intLen t) then do
    dropLong
    setInfo (intLen t)
    memmove 0 (t ++ [0]) (intLen t)
  else do
    dropInline
    let made ← makeChars (sizeT (intLen t - 1) + 1) 0 ram
    assignMade made
    setInfo (-intLen t)
    memmove 0 (t ++ [0]) (intLen t)

/-- `operator=(const char*)` -/
def assignChars : Text → Ram → Act Unit := assignText

/-- `operator=(const std::string&)` -/
def assignStdString : Text → Ram → Act Unit := assignText

/-- `memmove(c_str(), s.c_str(), len)` -/
def memmoveFrom (s : PDBString) (len : Int) : Act Unit := fun o =>
  match s.buffer o.bodies with
  | some src => memmove 0 src len o
  | none => .error .fault o

/-- `operator=(const String&)`, from another object -/
def assignString (s : PDBString) (ram : Ram) : Act Unit :=
  if 0 ≤ s.info then do
    dropLong
    setOffsetTo s.getOffset
    setInfo s.info
  else do
    dropInline
    let made ← makeChars (sizeT (i32 s.size - 1) + 1) 0 ram
    assignMade made
    memmoveFrom s (i32 s.size)
    setInfo s.info

/-! ## construction and destruction -/

/-- `String()` -/
def constructDefault : Act Unit := do
  setInfo 1
  setOffsetTo (-1)
  memmove 0 [0] 1

/-- what the constructors from characters do before they copy the characters -/
def constructSpace (t : Text) (ram : Ram) : Act Unit :=
  if canFitInData (intLen t) then setInfo (intLen t)
  else do
    setOffsetTo (-1)
    let made ← makeChars (sizeT (intLen t - 1) + 1) 0 ram
    assignMade made
    setInfo (-intLen t)

/-- the body of `String(const char*)` and `String(const std::string&)` -/
def constructText (t : Text) (ram : Ram) : Act Unit := do
  constructSpace t ram
  memmove 0 (t ++ [0]) (intLen t)

/-- `String(const char*, size_t)`; `t`: the first `n` characters -/
def constructChars (t : Text) (ram : Ram) : Act Unit := do
  constructSpace t ram
  memmove 0 t (intLen t - 1)
  memmove (sizeT (intLen t - 1)) [0] 1

/-- the deep copy in `Handle::operator=`: the characters `chars` to a new body in the current block;
`old`: the handle before the assignment -/
def deepCopy (old : PDBString) (info : Int) (chars : List UInt8) (ram : Ram) : Act Unit := do
  setInfo info
  match ← makeChars (sizeT (-info)) 1 ram with
  | some n =>
    setOffsetTo (n - old.addr)
    memmove 0 chars (-info)
    decOldRefCount old
  | none =>
    decOldRefCount old
    setOffsetTo (-1)
    throw Stop.notEnoughSpace

/-- the shallow copy in `Handle::operator=` -/
def shareTarget (old : PDBString) (info a : Int) : Act Unit := do
  setInfo info
  setOffsetTo (a - old.addr)
  incRefCount
  decOldRefCount old

/-- `Handle::operator=` from the handle of `s`: a deep copy into the current block if only this
handle is in it -/
def assignHandle (s : PDBString) (ram : Ram) : Act Unit := fun o =>
  if s.getOffset = -1 then assignNull o
  else match s.body? o.bodies with
  | some (a, b) =>
    if b.block ≠ o.active ∧ o.str.block = some o.active then deepCopy o.str s.info b.chars ram o
    else shareTarget o.str s.info a o
  | none => .error .fault o

/-- `String(const String&)` -/
def constructCopy (s : PDBString) (ram : Ram) : Act Unit :=
  if 0 ≤ s.info then do
    setOffsetTo s.getOffset
    setInfo s.info
  else do
    setOffsetTo (-1)
    assignHandle s ram
    setInfo s.info

/-- `~String` -/
def destroy : Act Unit := do
  let o ← get
  if o.str.info < -1 then decOldRefCount o.str else pure ()

end PDBString
end Netsdb
