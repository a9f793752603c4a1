import Mathlib.Algebra.BigOperators.Group.Finset.Basic
import Mathlib.Logic.Function.Basic
import Netsdb.ObjectModel.Allocator
import Mathlib.Algebra.GroupWithZero.Nat

/-!
# Handles (`Handle.cc`, `RefCountedObject.cc`, `PDBTemplateBase.cc`, `InterfaceFunctions.cc`)

A store holds the objects of all allocation blocks and the handles outside of objects.  Objects
are named by the number of their allocation, so that an address used again names a new object.
A handle keeps an offset relative to its own address, and `-1` is the null offset: the null
handle at `l` is the one that points to the address just before `l`.

* `Store.decRefCount`      with the cascade of destructors;
* `Store.assignHandle`     `operator=`, with the deep copy into the current block;
* `Store.exec`             the operations on handles.

Members that are not handles are one opaque `data` value.  The two overloads of each operation,
for a handle to the same and to another type, have the same body; an object's dynamic type is
the `typeInfo` of the handles to it.
-/

namespace Netsdb

/-- where a handle is: by itself (on the stack or in a block), or a member of an object -/
inductive Loc
  | root (n : Nat)
  | field (a i : Nat)
deriving DecidableEq, Repr

/-- an address: an object, or the byte in front of a handle -/
inductive Target
  | obj (a : Nat)
  | before (l : Loc)
deriving DecidableEq, Repr

structure Handle where
  target : Target
  typeInfo : Int
deriving DecidableEq, Repr

structure RefCountedObject where
  block : Nat
  refCount : Nat
  typeInfo : Int
  data : Nat
  fields : List Handle
deriving DecidableEq, Repr

/-- a handle that is not a member; `none`: it is on the stack -/
structure Root where
  block : Option Nat
  handle : Handle
deriving DecidableEq, Repr

structure Store where
  objs : Nat → Option RefCountedObject
  next : Nat
  roots : Nat → Option Root
  numRoots : Nat
  /-- the current allocation block -/
  active : Nat
  /-- the other blocks the allocator manages -/
  inactive : List Nat
  /-- the calls of `deleteConstituentObject`, last first -/
  deleted : List Nat
  /-- the calls of `freeRAM`, last first -/
  freed : List Nat
  /-- a reference count was changed where no object is -/
  stray : Bool

def Array_TYPEID : Int := 6

/-- `deleteConstituentObject` destroys the member handles: not for a type that does not descend
from `Object`, and not for `Array`, whose destructor has its body commented out -/
def destroysMembers (info : Int) : Bool := decide (0 < info) && decide (info ≠ Array_TYPEID)

/-- the handle that the default constructor makes; nothing reads its type while it is null -/
def nullHandle (l : Loc) : Handle := ⟨.before l, 0⟩

def nullFields (a k : Nat) : List Handle := (List.range k).map fun i => nullHandle (.field a i)

namespace Store

/-! ## reading and writing handles -/

def handleAt (s : Store) : Loc → Option Handle
  | .root n => (s.roots n).map Root.handle
  | .field a i => (s.objs a).bind fun o => o.fields[i]?

def setObj (s : Store) (a : Nat) (o : RefCountedObject) : Store :=
  { s with objs := Function.update s.objs a (some o) }

def setHandle (s : Store) (l : Loc) (h : Handle) : Store :=
  match l with
  | .root n =>
    match s.roots n with
    | some r => { s with roots := Function.update s.roots n (some { r with handle := h }) }
    | none => s
  | .field a i =>
    match s.objs a with
    | some o => s.setObj a { o with fields := o.fields.set i h }
    | none => s

def locBlock (s : Store) : Loc → Option Nat
  | .root n => (s.roots n).bind Root.block
  | .field a _ => (s.objs a).map RefCountedObject.block

def managedBlock (s : Store) (b : Nat) : Bool := decide (b = s.active) || decide (b ∈ s.inactive)

/-- `getAllocator().contains`, of the address of a handle -/
def containsLoc (s : Store) (l : Loc) : Bool := decide (s.locBlock l = some s.active)

/-- `getAllocator().contains`, of a target -/
def contains (s : Store) : Target → Bool
  | .obj a => decide ((s.objs a).map RefCountedObject.block = some s.active)
  | .before l => s.containsLoc l

/-- `getAllocator().isManaged`; the RAM of an object that is gone is still in some block -/
def isManaged (s : Store) : Target → Bool
  | .obj a =>
    match s.objs a with
    | some o => s.managedBlock o.block
    | none => true
  | .before l =>
    match s.locBlock l with
    | some b => s.managedBlock b
    | none => false

/-! ## reference counts -/

def incRefCount (s : Store) (t : Target) : Store :=
  if s.isManaged t then
    match t with
    | .obj a =>
      match s.objs a with
      | some o => s.setObj a { o with refCount := u32 (o.refCount + 1) }
      | none => { s with stray := true }
    | .before _ => { s with stray := true }
  else s

def freeRAM (s : Store) (a : Nat) : Store :=
  { s with objs := Function.update s.objs a none, freed := a :: s.freed }

/-- `~Handle`, with `dec` for `decRefCount` -/
def destroyHandle (dec : Store → Target → Int → Option Store) (s : Store) (l : Loc) (h : Handle) :
    Option Store :=
  if h.target ≠ .before l ∧ s.isManaged h.target then dec s h.target h.typeInfo else some s

def destroyHandles (dec : Store → Target → Int → Option Store) :
    List (Loc × Handle) → Store → Option Store
  | [], s => some s
  | (l, h) :: rest, s => (destroyHandle dec s l h).bind (destroyHandles dec rest)

/-- the handles of an object with their addresses -/
def members (a : Nat) (o : RefCountedObject) : List (Loc × Handle) :=
  o.fields.mapIdx fun i h => (.field a i, h)

/-- members are destroyed in reverse order -/
def deleteConstituentObject (dec : Store → Target → Int → Option Store) (s : Store) (a : Nat)
    (o : RefCountedObject) (info : Int) : Option Store :=
  let s' := { s with deleted := a :: s.deleted }
  if destroysMembers info then destroyHandles dec (members a o).reverse s' else some s'

/-- `none`: out of fuel -/
def decRefCount : Nat → Store → Target → Int → Option Store
  | 0, _, _, _ => none
  | fuel + 1, s, t, info =>
    if s.isManaged t then
      match t with
      | .obj a =>
        match s.objs a with
        | some o =>
          let n := u32 (o.refCount + (2^32 - 1))
          let s' := s.setObj a { o with refCount := n }
          if n = 0 then
            (deleteConstituentObject (decRefCount fuel) s' a o info).map fun s'' => s''.freeRAM a
          else some s'
        | none => some { s with stray := true }
      | .before _ => some { s with stray := true }
    else some s

/-- `DEC_OLD_REF_COUNT` -/
def decOldRefCount (fuel : Nat) (s : Store) (this : Loc) (old : Handle) : Option Store :=
  if old.target ≠ .before this then decRefCount fuel s old.target old.typeInfo else some s

/-! ## construction and assignment -/

/-- `getRAM` and `setRefCount(1)` -/
def allocate (s : Store) (info : Int) (k : Nat) : Store :=
  { s with
    objs := Function.update s.objs s.next (some ⟨s.active, 1, info, 0, nullFields s.next k⟩)
    next := s.next + 1 }

def copyMembers (assign : Store → Loc → Loc → Option Store) (n b : Nat) :
    List Nat → Store → Option Store
  | [], s => some s
  | i :: rest, s => (assign s (.field n i) (.field b i)).bind (copyMembers assign n b rest)

/-- `setUpAndCopyFromConstituentObject`: the default constructor in the space of `n`, then
memberwise assignment from what is at `source` -/
def setUpAndCopyFrom (assign : Store → Loc → Loc → Option Store) (s : Store) (n : Nat)
    (source : Target) : Option Store :=
  match s.objs n, source with
  | some o, .obj b =>
    let s' := s.setObj n { o with data := 0, fields := nullFields n o.fields.length }
    match s'.objs b with
    | some ob =>
      copyMembers assign n b (List.range ob.fields.length)
        (s'.setObj n { o with data := ob.data, fields := nullFields n o.fields.length })
    | none => none
  | _, _ => none

/-- what constructors and assignments share, after `typeInfo = fromMe.typeInfo`: a handle in the
current block gets a deep copy of a target outside of it -/
def pointTo (assign : Store → Loc → Loc → Option Store) (s : Store) (this fromMe : Loc)
    (rhs : Handle) : Option Store :=
  if s.contains rhs.target = false ∧ s.containsLoc this = true then
    match rhs.target with
    | .obj b =>
      match s.objs b with
      | some ob =>
        let s' := (s.allocate rhs.typeInfo ob.fields.length).setHandle this
          ⟨.obj s.next, rhs.typeInfo⟩
        -- the offset is set: `fromMe` is read again, and it may be `this`
        (s'.handleAt fromMe).bind fun h => setUpAndCopyFrom assign s' s.next h.target
      | none => none
    | .before _ => none
  else some ((s.setHandle this rhs).incRefCount rhs.target)

/-- `operator=` from a handle -/
def assignHandle : Nat → Store → Loc → Loc → Option Store
  | 0, _, _, _ => none
  | fuel + 1, s, this, fromMe =>
    match s.handleAt this, s.handleAt fromMe with
    | some old, some rhs =>
      if rhs.target = .before fromMe then
        (decOldRefCount fuel s this old).map fun s' => s'.setHandle this ⟨.before this, old.typeInfo⟩
      else
        (pointTo (assignHandle fuel) (s.setHandle this ⟨old.target, rhs.typeInfo⟩) this fromMe
          rhs).bind fun s' => decOldRefCount fuel s' this old
    | _, _ => none

/-- `operator=` from `nullptr` -/
def assignNull (fuel : Nat) (s : Store) (this : Loc) : Option Store :=
  (s.handleAt this).bind fun old =>
    (decOldRefCount fuel s this old).map fun s' => s'.setHandle this ⟨.before this, old.typeInfo⟩

/-- memory for one more handle by itself -/
def addRoot (s : Store) (block : Option Nat) (h : Handle) : Store :=
  { s with
    roots := Function.update s.roots s.numRoots (some ⟨block, h⟩)
    numRoots := s.numRoots + 1 }

def constructNull (s : Store) (block : Option Nat) (info : Int) : Store :=
  s.addRoot block ⟨.before (.root s.numRoots), info⟩

/-- `Handle(const Handle&)` -/
def construct (fuel : Nat) (s : Store) (block : Option Nat) (fromMe : Loc) : Option Store :=
  (s.handleAt fromMe).bind fun rhs =>
    if rhs.target = .before fromMe then some (s.constructNull block 0)
    else pointTo (assignHandle fuel) (s.constructNull block rhs.typeInfo) (.root s.numRoots) fromMe
      rhs

/-- the result is on the stack; its offset makes it point to where `castMe` points -/
def unsafe_cast (s : Store) (castMe : Loc) : Option Store :=
  (s.handleAt castMe).map fun h => (s.addRoot none h).incRefCount h.target

/-- `~Handle` of a handle by itself, and the end of its memory -/
def destroy (fuel : Nat) (s : Store) (n : Nat) : Option Store :=
  (s.roots n).bind fun r =>
    (destroyHandle (decRefCount fuel) s (.root n) r.handle).map fun s' =>
      { s' with roots := Function.update s'.roots n none }

end Store

inductive HandleOp
  | constructNull (block : Option Nat) (info : Int)
  | construct (block : Option Nat) (fromMe : Loc)
  | assign (this fromMe : Loc)
  | assignNull (this : Loc)
  | unsafe_cast (castMe : Loc)
  | destroy (n : Nat)
deriving DecidableEq, Repr

/-- one operation; `none`: a handle in it does not exist, or the fuel runs out -/
def Store.exec (fuel : Nat) (s : Store) : HandleOp → Option Store
  | .constructNull block info => some (s.constructNull block info)
  | .construct block fromMe => s.construct fuel block fromMe
  | .assign this fromMe => s.assignHandle fuel this fromMe
  | .assignNull this => s.assignNull fuel this
  | .unsafe_cast castMe => s.unsafe_cast castMe
  | .destroy n => s.destroy fuel n

end Netsdb
