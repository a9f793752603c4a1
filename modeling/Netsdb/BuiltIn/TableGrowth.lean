import Netsdb.BuiltIn.JoinMap

/-!
# How many bytes a table asks for (`PairArray.cc`, `JoinPairArray.cc`, `Allocator.cc`)

Slot counts, record sizes and their products are 32 bits wide, and so is the size of a chunk.

* `TableShape`       what `doubleArray` and `getSize` compute with, in either table;
* `TableKind`        a table with its insertions; `mapKind` and `joinMapKind` are the two;
* `TableRun`         a table on a block, with the other objects of the block;
* `GrowsRight`       the byte counts are exact, and a count that is too large is refused;
* `growsRight_iff`   this holds just where the doubled table can be written in 32 bits, and always on
                     blocks of 2 GiB at most (`canGrow_of_le`).
-/

set_option linter.unusedSectionVars false

namespace Netsdb
open Machine

/-! ## the arithmetic -/

structure TableShape where
  layout : ArrayLayout
  numSlots : ℕ

namespace TableShape
variable (t t' : TableShape)

/-- `numSlots * 2` -/
def howMany : ℕ := u32 (t.numSlots * 2)

/-- `objSize * howMany` -/
def extra : ℕ := u32 (t.layout.objSize * t.howMany)

/-- what `doubleArray` makes `getRAM` be asked for -/
def doubleRequest : ℕ := t.layout.request t.extra

/-- `sizeof`, and the reference count in front of the object -/
def header : ℕ := t.layout.dataOffset + t.layout.tail

/-- `getSize`, and the reference count in front of the object -/
def getSize : ℕ := t.header + u32 (t.layout.objSize * t.numSlots)

/-- the bytes of the slots of the doubled table -/
def doubledBytes : ℕ := t.layout.objSize * (t.numSlots * 2)

/-- the slots of the doubled table, their threshold and the chunk for it fit the 32-bit fields -/
def Representable : Prop :=
  t.numSlots * 2 < 2^32 ∧ PairArray.fill (t.numSlots * 2) < 2^32 ∧ t.layout.Fits (t.numSlots * 2)

/-- a table that `doubleArray` has made from `t` -/
structure Doubled : Prop where
  layout : t'.layout = t.layout
  numSlots : t'.numSlots = t.howMany
  stored : t.layout.objSize * t.howMany ≤ t.layout.storage t.extra

variable {t t'}

theorem representable_iff : t.Representable ↔ t.layout.Fits (t.numSlots * 2) := by
  refine ⟨fun h => h.2.2, fun h => ⟨h.lt, lt_of_le_of_lt ?_ h.lt, h⟩⟩
  unfold PairArray.fill
  omega

/-- the count that is asked for is right just where it is below 2^32 -/
theorem doubleRequest_iff :
    t.doubleRequest = t.header + t.doubledBytes ↔ t.doubledBytes < 2^32 := by
  have hreq : t.doubleRequest = t.header + t.extra := by
    unfold doubleRequest ArrayLayout.request header
    omega
  have hlt : t.extra < 2^32 := u32_lt _
  constructor
  · intro h
    omega
  · intro h
    have hmany : t.howMany = t.numSlots * 2 := by
      have hle := Nat.le_mul_of_pos_left (t.numSlots * 2) t.layout.objSize_pos
      exact u32_of_lt (hle.trans_lt h)
    have hextra : t.extra = t.doubledBytes := by
      unfold extra
      rw [hmany]
      exact u32_of_lt h
    rw [hreq, hextra]

theorem getSize_eq (h : t.doubledBytes < 2^32) :
    t.getSize = t.header + t.layout.objSize * t.numSlots := by
  unfold getSize
  rw [u32_of_lt (lt_of_le_of_lt ?_ h)]
  exact Nat.mul_le_mul_left _ (Nat.le_mul_of_pos_right _ (by decide))

end TableShape

/-! ## what the allocator answers -/

namespace Allocator
variable {a : Allocator} {howMuch : ℕ}

/-- no free chunk is found for the request, and it is not carved out either -/
def NoRoom (a : Allocator) (howMuch : ℕ) : Prop :=
  (a.policy ≠ .noReuseAllocator →
    findChunk a.chunkSize (bytesNeeded howMuch) a.myState.chunks
      (32 - (31 - leadingZeros (bytesNeeded howMuch))) (31 - leadingZeros (bytesNeeded howMuch)) =
        none) ∧
  a.myState.numBytes < a.lastUsed a.myState.activeRAM + bytesNeeded howMuch

theorem carve_fails_iff {bytes : ℕ} : (a.carve bytes).1 = .notEnoughSpace ↔
    a.myState.throwException = true ∧
      a.myState.numBytes < a.lastUsed a.myState.activeRAM + bytes := by
  unfold carve
  by_cases h : a.lastUsed a.myState.activeRAM + bytes > a.myState.numBytes
  · rw [if_pos h]
    cases a.myState.throwException with
    | false => exact iff_of_false nofun nofun
    | true => exact iff_of_true rfl ⟨rfl, h⟩
  · rw [if_neg h]
    exact iff_of_false nofun fun h' => h h'.2

theorem getRAM_fails_iff : (a.getRAM howMuch).1 = .notEnoughSpace ↔
    a.myState.throwException = true ∧ a.NoRoom howMuch := by
  have hdefault : (a.defaultGetRAM howMuch).1 = .notEnoughSpace ↔
      a.myState.throwException = true ∧
        findChunk a.chunkSize (bytesNeeded howMuch) a.myState.chunks
          (32 - (31 - leadingZeros (bytesNeeded howMuch)))
          (31 - leadingZeros (bytesNeeded howMuch)) = none ∧
        a.myState.numBytes < a.lastUsed a.myState.activeRAM + bytesNeeded howMuch := by
    unfold defaultGetRAM
    simp only
    split
    · next hf =>
      rw [hf]
      exact iff_of_false nofun nofun
    · next hf =>
      rw [hf, carve_fails_iff]
      tauto
  unfold getRAM NoRoom
  cases hp : a.policy with
  | defaultAllocator => simpa using hdefault
  | noReuseAllocator => simpa [fastGetRAM] using carve_fails_iff
  | noReferenceCountAllocator => simpa using hdefault

end Allocator

/-! ## the two tables -/

/-- the state in which a call leaves its object, if it is not fatal -/
def Outcome.state {σ α : Type*} : Outcome σ α → Option σ
  | .ret s _ => some s
  | .notEnoughSpace s => some s
  | .fatal => none

theorem Outcome.state_lift {σ τ α : Type*} (f : σ → τ) (o : Outcome σ α) :
    (o.lift f).state = o.state.map f := by
  cases o <;> rfl

namespace PairArray
variable {K V : Type*} {a a' b : PairArray K V} {k : K} {fail : MapSite → Bool}

def shape (a : PairArray K V) : TableShape := ⟨a.layout, a.numSlots⟩

theorem shape_create [Inhabited K] [Inhabited V] {l : ArrayLayout} {extra n : ℕ}
    (h : create l extra n = some a) : a.shape = ⟨l, n⟩ ∧ l.objSize * n ≤ l.storage extra := by
  unfold create at h
  split_ifs at h with hbad
  cases h
  exact ⟨rfl, not_lt.mp fun hlt => hbad (.inr hlt)⟩

variable [BEq K] [Hashable K] [Inhabited V]

theorem shape_index (h : (a.index fail k).state = some a') : a'.shape = a.shape := by
  unfold index at h
  cases hf : a.findSlot k with
  | none =>
    rw [hf] at h
    cases h
  | some slot =>
    rw [hf] at h
    dsimp only at h
    split_ifs at h <;> cases h <;> rfl

theorem shape_moveSlots (fail : MapSite → Bool) (is : List ℕ) : ∀ old new : PairArray K V,
    match moveSlots fail is old new with
    | .ret old' new' => old'.shape = old.shape ∧ new'.shape = new.shape
    | .notEnoughSpace old' => old'.shape = old.shape
    | .fatal => True := by
  induction is with
  | nil => exact fun _ _ => ⟨rfl, rfl⟩
  | cons i is ih =>
    intro old new
    rw [moveSlots]
    split_ifs with h0 hf
    · exact ih old new
    · rfl
    · cases hidx : new.index (fun _ => false) (old.data i).key with
      | fatal => trivial
      | notEnoughSpace s => rfl
      | ret new₁ slot =>
        have hshape : new₁.shape = new.shape := shape_index (by rw [hidx]; rfl)
        have hrest := ih (old.setRecord i { old.data i with hash := UNUSED })
          (new₁.setValue slot (old.data i).value)
        dsimp only
        cases hm : moveSlots fail is (old.setRecord i { old.data i with hash := UNUSED })
            (new₁.setValue slot (old.data i).value) with
        | fatal => trivial
        | notEnoughSpace old' =>
          rw [hm] at hrest
          exact hrest
        | ret old' new' =>
          rw [hm] at hrest
          exact ⟨hrest.1, hrest.2.trans hshape⟩

variable [Inhabited K]

theorem shape_doubleArray (fail : MapSite → Bool) (a : PairArray K V) :
    match a.doubleArray fail with
    | .ret _ new => a.shape.Doubled new.shape
    | .notEnoughSpace old => old.shape = a.shape
    | .fatal => True := by
  unfold doubleArray
  dsimp only
  split_ifs with h
  · rfl
  · cases hc : create (K := K) (V := V) a.layout
        (u32 (a.layout.objSize * u32 (a.numSlots * 2))) (u32 (a.numSlots * 2)) with
    | none => trivial
    | some new =>
      obtain ⟨hshape, hstored⟩ := shape_create hc
      have hm := shape_moveSlots fail (List.range a.numSlots) a new
      dsimp only
      cases hr : moveSlots fail (List.range a.numSlots) a new with
      | fatal => trivial
      | notEnoughSpace old =>
        rw [hr] at hm
        exact hm
      | ret old new' =>
        rw [hr] at hm
        show a.shape.Doubled new'.shape
        rw [hm.2, hshape]
        exact ⟨rfl, rfl, hstored⟩

end PairArray

namespace JoinPairArray
variable {V : Type*} {a a' : JoinPairArray V} {fail : JoinSite → Bool} {me slot : ℕ}

def shape (a : JoinPairArray V) : TableShape := ⟨a.layouts.table, a.numSlots⟩

theorem shape_newList (h : (a.newList fail slot).state = some a') : a'.shape = a.shape := by
  unfold newList at h
  split_ifs at h
  · cases h
    rfl
  · cases hc : (PDBVector.create a.layouts.inner 1 : Option (PDBVector V)) with
    | none =>
      rw [hc] at h
      cases h
    | some temp =>
      rw [hc] at h
      dsimp only at h
      cases hp : a.overflows.push_back (fun site => fail (.outer site)) temp <;> rw [hp] at h <;>
        cases h <;> rfl
  · cases h
    rfl

theorem shape_setValue (r : ValueRef) (v : V) : (a.setValue r v).shape = a.shape := by
  unfold setValue
  cases r with
  | slot slot => rfl
  | overflow list i =>
    dsimp only
    split <;> rfl

variable [Inhabited V]

theorem shape_create {l : JoinLayouts} {extra n : ℕ} (h : create l extra n = some a) :
    a.shape = ⟨l.table, n⟩ ∧ l.table.objSize * n ≤ l.table.storage extra := by
  unfold create at h
  split_ifs at h with hbad
  obtain ⟨overflows, -, rfl⟩ := Option.map_eq_some_iff.mp h
  exact ⟨rfl, not_lt.mp fun hlt => hbad (.inr hlt)⟩

theorem shape_pushOverflow (h : (a.pushOverflow fail slot).state = some a') : a'.shape = a.shape := by
  unfold pushOverflow at h
  cases hl : a.newList fail slot with
  | fatal =>
    rw [hl] at h
    cases h
  | notEnoughSpace b =>
    rw [hl] at h
    cases h
    exact shape_newList (by rw [hl]; rfl)
  | ret b _ =>
    have hb : b.shape = a.shape := shape_newList (by rw [hl]; rfl)
    rw [hl] at h
    dsimp only at h
    cases hv : b.overflows.items[(b.data slot).next]? with
    | none =>
      rw [hv] at h
      cases h
    | some v =>
      rw [hv] at h
      dsimp only at h
      cases hp : v.push_back (fun site => fail (.inner site)) default <;> rw [hp] at h <;>
        cases h <;> exact hb

theorem shape_push (h : (a.push fail me).state = some a') : a'.shape = a.shape := by
  unfold push at h
  cases hf : a.findSlot (hashValOf me) with
  | none =>
    rw [hf] at h
    cases h
  | some slot =>
    rw [hf] at h
    dsimp only at h
    split_ifs at h
    · cases h
      rfl
    · cases h
      rfl
    · exact shape_pushOverflow h

theorem shape_copySlots (fail : JoinSite → Bool) (a : JoinPairArray V) (is : List ℕ) :
    ∀ new : JoinPairArray V,
    match copySlots fail a is new with
    | .ret a' new' => a' = a ∧ new'.shape = new.shape
    | .notEnoughSpace a' => a' = a
    | .fatal => True := by
  induction is with
  | nil => exact fun _ => ⟨rfl, rfl⟩
  | cons i is ih =>
    intro new
    rw [copySlots]
    split_ifs with h0 hf
    · exact ih new
    · rfl
    · cases hp : new.push (fun _ => false) (a.data i).hash with
      | fatal => trivial
      | notEnoughSpace s => rfl
      | ret new₁ r =>
        have hshape : new₁.shape = new.shape := shape_push (by rw [hp]; rfl)
        dsimp only
        cases r with
        | overflow list j => trivial
        | slot slot =>
          have hrest := ih ((new₁.setValue (.slot slot) (a.data i).value).setRecord slot
            { (new₁.setValue (.slot slot) (a.data i).value).data slot with next := (a.data i).next })
          dsimp only
          revert hrest
          cases copySlots fail a is ((new₁.setValue (.slot slot) (a.data i).value).setRecord slot
            { (new₁.setValue (.slot slot) (a.data i).value).data slot with next := (a.data i).next }) with
          | fatal => exact fun _ => trivial
          | notEnoughSpace a' => exact id
          | ret a' new' => exact fun hrest => ⟨hrest.1, hrest.2.trans hshape⟩

theorem shape_doubleArray (fail : JoinSite → Bool) (a : JoinPairArray V) :
    match a.doubleArray fail with
    | .ret _ new => a.shape.Doubled new.shape
    | .notEnoughSpace old => old.shape = a.shape
    | .fatal => True := by
  unfold doubleArray
  dsimp only
  split_ifs with h
  · rfl
  · cases hc : create (V := V) a.layouts
        (u32 (a.layouts.table.objSize * u32 (a.numSlots * 2))) (u32 (a.numSlots * 2)) with
    | none => trivial
    | some new =>
      obtain ⟨hshape, hstored⟩ := shape_create hc
      have hm := shape_copySlots fail a (List.range a.numSlots) new
      dsimp only
      cases hr : copySlots fail a (List.range a.numSlots) new with
      | fatal => trivial
      | notEnoughSpace old =>
        rw [hr] at hm
        exact congrArg shape hm
      | ret old new' =>
        rw [hr] at hm
        have hnew : new'.shape = new.shape := hm.2
        show a.shape.Doubled new'.shape
        rw [hnew, hshape]
        exact ⟨rfl, rfl, hstored⟩

end JoinPairArray

/-- a table with its insertions: `T` the tables, `E` what is inserted, `S` the steps of an insertion
that can run out of space -/
structure TableKind (L T E S : Type*) where
  layout : L → ArrayLayout
  shape : T → TableShape
  /-- the constructor -/
  create : L → ℕ → Option T
  /-- the insertion begins with `doubleArray` -/
  grows : T → E → Bool
  /-- the table behind an insertion, also behind one that throws -/
  insert : (S → Bool) → T → E → Option T
  shape_create : ∀ {l n t}, create l n = some t → (shape t).layout = layout l ∧
    (shape t).numSlots = max n 2 ∧
    (layout l).objSize * max n 2 ≤ (layout l).storage ((layout l).objSize * max n 2)
  shape_insert : ∀ {fail t e t'}, insert fail t e = some t' →
    shape t' = shape t ∨ grows t e = true ∧ (shape t).Doubled (shape t')

section
variable {K V : Type*} [BEq K] [Hashable K] [Inhabited K] [Inhabited V]

theorem max_two (n : ℕ) : (if n < 2 then 2 else n) = max n 2 := by
  split <;> omega

theorem PDBMap.shape_insert {fail : MapSite → Bool} {m m' : PDBMap K V} {which : K}
    (h : (m.index fail which).state = some m') : m'.myArray.shape = m.myArray.shape ∨
      decide (m.count which = 0 ∧ m.myArray.isOverFull = true) = true ∧
        m.myArray.shape.Doubled m'.myArray.shape := by
  unfold PDBMap.index at h
  by_cases hg : m.myArray.count which = 0 ∧ m.myArray.isOverFull = true
  · rw [if_pos hg] at h
    have hd := PairArray.shape_doubleArray fail m.myArray
    cases hr : m.myArray.doubleArray fail with
    | fatal =>
      rw [hr] at h
      cases h
    | notEnoughSpace old =>
      rw [hr] at h hd
      cases h
      exact .inl hd
    | ret old temp =>
      rw [hr] at h hd
      dsimp only at h
      rw [Outcome.state_lift] at h
      obtain ⟨b, hb, rfl⟩ := Option.map_eq_some_iff.mp h
      refine .inr ⟨decide_eq_true hg, ?_⟩
      rw [PairArray.shape_index hb]
      exact hd
  · rw [if_neg hg, Outcome.state_lift] at h
    obtain ⟨b, hb, rfl⟩ := Option.map_eq_some_iff.mp h
    exact .inl (PairArray.shape_index hb)

/-- `Map`, with a `PairArray` -/
def mapKind (K V : Type*) [BEq K] [Hashable K] [Inhabited K] [Inhabited V] :
    TableKind ArrayLayout (PDBMap K V) K MapSite where
  layout := id
  shape m := m.myArray.shape
  create := PDBMap.create
  grows m which := decide (m.count which = 0 ∧ m.myArray.isOverFull = true)
  insert fail m which := (m.index fail which).state
  shape_create := by
    intro l n t h
    obtain ⟨a, ha, rfl⟩ := Option.map_eq_some_iff.mp h
    obtain ⟨hs, hst⟩ := PairArray.shape_create ha
    rw [max_two] at hst
    rw [hs, max_two]
    exact ⟨rfl, rfl, hst⟩
  shape_insert := PDBMap.shape_insert

theorem JoinMap.shape_insert {fail : JoinSite → Bool} {m m' : JoinMap V} {me : ℕ}
    (h : (m.push fail me).state = some m') : m'.myArray.shape = m.myArray.shape ∨
      m.myArray.isOverFull = true ∧ m.myArray.shape.Doubled m'.myArray.shape := by
  unfold JoinMap.push at h
  by_cases hg : m.myArray.isOverFull = true
  · rw [if_pos hg] at h
    have hd := JoinPairArray.shape_doubleArray fail m.myArray
    cases hr : m.myArray.doubleArray fail with
    | fatal =>
      rw [hr] at h
      cases h
    | notEnoughSpace old =>
      rw [hr] at h hd
      cases h
      exact .inl hd
    | ret old temp =>
      rw [hr] at h hd
      dsimp only at h
      rw [Outcome.state_lift] at h
      obtain ⟨b, hb, rfl⟩ := Option.map_eq_some_iff.mp h
      refine .inr ⟨hg, ?_⟩
      show m.myArray.shape.Doubled b.shape
      rw [JoinPairArray.shape_push hb]
      exact hd
  · rw [if_neg hg, Outcome.state_lift] at h
    obtain ⟨b, hb, rfl⟩ := Option.map_eq_some_iff.mp h
    exact .inl (JoinPairArray.shape_push hb)

/-- `JoinMap`, with a `JoinPairArray` -/
def joinMapKind (V : Type*) [Inhabited V] : TableKind JoinLayouts (JoinMap V) ℕ JoinSite where
  layout l := l.table
  shape m := m.myArray.shape
  create l n := JoinMap.create l n 0 0
  grows m _ := m.myArray.isOverFull
  insert fail m me := (m.push fail me).state
  shape_create := by
    intro l n t h
    obtain ⟨a, ha, rfl⟩ := Option.map_eq_some_iff.mp h
    obtain ⟨hs, hst⟩ := JoinPairArray.shape_create ha
    rw [max_two] at hst
    rw [hs, max_two]
    exact ⟨rfl, rfl, hst⟩
  shape_insert := JoinMap.shape_insert

end

/-! ## a table on a block -/

/-- a table, the allocator whose active block it is on, and the objects of the block, the arrays of
the table among them -/
structure TableRun (T : Type*) where
  table : T
  alloc : Allocator
  live : List ℕ

inductive TableOp (E S : Type*)
  | insert (e : E) (fail : S → Bool)
  /-- what other objects of the block do, the keys and values in the table among them -/
  | getRAM (howMuch : ℕ)
  | freeRAM (here : ℕ)
  | setPolicy (toMe : AllocatorPolicy)

namespace TableRun
variable {L T E S : Type*} (k : TableKind L T E S)

/-- a table on a new block; `none`: there is no room for it, or the slots are not all in its storage -/
def start (a : Allocator) (place numBytes : ℕ) (throwException : Bool) (l : L) (initSize : ℕ) :
    Option (TableRun T) :=
  (a.setupBlock place numBytes throwException).bind fun a =>
    match a.getRAM ((k.layout l).request ((k.layout l).objSize * max initSize 2)) with
    | (.ret p, a) => (k.create l initSize).map fun t => ⟨t, a, [p]⟩
    | _ => none

/-- an insertion that doubles the table asks for the new array first; when an array is freed, is left
to the steps that follow -/
def step (s : TableRun T) : TableOp E S → Option (TableRun T)
  | .insert e fail =>
    if k.grows s.table e then
      match s.alloc.getRAM (k.shape s.table).doubleRequest with
      | (.ret p, a) => (k.insert fail s.table e).map fun t => ⟨t, a, p :: s.live⟩
      | (.notEnoughSpace, _) => some s
      | (.nullptr, _) => none
    else (k.insert fail s.table e).map fun t => { s with table := t }
  | .getRAM howMuch =>
    match s.alloc.getRAM howMuch with
    | (.ret p, a) => some { s with alloc := a, live := p :: s.live }
    | _ => some s
  | .freeRAM here =>
    if here ∈ s.live then some { s with alloc := s.alloc.freeRAM here, live := s.live.erase here }
    else none
  | .setPolicy toMe => some { s with alloc := s.alloc.setPolicy toMe }

/-- the counts are exact; what is too large for 32 bits is refused -/
structure GrowsRight (t : TableShape) (a : Allocator) : Prop where
  getSize : t.getSize = t.header + t.layout.objSize * t.numSlots
  request : t.doubleRequest = t.header + t.doubledBytes
  refused : ¬ t.Representable → (a.getRAM t.doubleRequest).1 = .notEnoughSpace

/-- the condition: the slots of the doubled table have less than 2^32 bytes, and its chunk too,
unless the block has no room even for what is left of the request -/
def CanGrow (t : TableShape) (a : Allocator) : Prop :=
  t.doubledBytes < 2^32 ∧ (t.layout.Fits (t.numSlots * 2) ∨
    a.myState.throwException = true ∧ a.NoRoom (t.header + t.doubledBytes))

theorem growsRight_iff_canGrow (t : TableShape) (a : Allocator) : GrowsRight t a ↔ CanGrow t a := by
  constructor
  · intro h
    have hlt := TableShape.doubleRequest_iff.mp h.request
    refine ⟨hlt, or_iff_not_imp_left.mpr fun hf => ?_⟩
    rw [← h.request]
    exact Allocator.getRAM_fails_iff.mp (h.refused fun hr => hf (TableShape.representable_iff.mp hr))
  · rintro ⟨hlt, hc⟩
    have hreq := TableShape.doubleRequest_iff.mpr hlt
    refine ⟨TableShape.getSize_eq hlt, hreq, fun hr => ?_⟩
    rw [hreq]
    refine Allocator.getRAM_fails_iff.mpr (hc.resolve_left fun hf => ?_)
    exact hr (TableShape.representable_iff.mpr hf)

/-! ## what the size of the block says of the tables on it -/

/-- no chunk is larger than the block -/
structure Sized (a : Allocator) (live : List ℕ) (numBytes : ℕ) : Prop where
  numBytes_eq : a.myState.numBytes = numBytes
  header_le : headerSize ≤ a.lastUsed a.myState.activeRAM
  free : ∀ i, ∀ c ∈ a.myState.chunks i, a.chunkSize c + headerSize ≤ numBytes
  live : ∀ p ∈ live, a.chunkSize (p - chunkHeaderSize) + headerSize ≤ numBytes

variable {k} {a a' : Allocator} {live : List ℕ} {numBytes howMuch p : ℕ}

theorem sized_setupBlock {place : ℕ} {thr : Bool} (h : a.setupBlock place numBytes thr = some a') :
    Sized a' [] numBytes := by
  unfold Allocator.setupBlock at h
  split_ifs at h <;> cases h
  all_goals
    refine ⟨rfl, ?_, fun _ c hc => absurd hc List.not_mem_nil, fun c hc => absurd hc List.not_mem_nil⟩
    exact (Function.update_self (β := fun _ => ℕ) place headerSize _).ge

/-- a chunk that is handed out is no larger than the block, and no smaller than was asked for -/
theorem Sized.getRAM (h : Sized a live numBytes) (hr : a.getRAM howMuch = (.ret p, a')) :
    Sized a' (p :: live) numBytes ∧ bytesNeeded howMuch + headerSize ≤ numBytes := by
  obtain ⟨-, i, j, -, hj, hfit, e⟩ | ⟨hfit, e⟩ | ⟨r, hne, e⟩ := a.getRAM_cases howMuch
  · cases hr.symm.trans e
    have hmem : (a.myState.chunks i).getD j 0 ∈ a.myState.chunks i := by
      rw [List.getD_eq_getElem _ _ hj]
      exact List.getElem_mem hj
    have hc := h.free i _ hmem
    refine ⟨⟨h.numBytes_eq, h.header_le, fun x c hx => h.free x c ?_, fun q hq => ?_⟩, by omega⟩
    · have hx : c ∈ Function.update a.myState.chunks i ((a.myState.chunks i).eraseIdx j) x := hx
      by_cases hxi : x = i
      · subst hxi
        rw [Function.update_self] at hx
        exact List.mem_of_mem_eraseIdx hx
      · rwa [Function.update_of_ne hxi] at hx
    · obtain rfl | hq := List.mem_cons.mp hq
      · rw [Nat.add_sub_cancel]
        exact hc
      · exact h.live q hq
  · cases hr.symm.trans e
    have hle : bytesNeeded howMuch + headerSize ≤ numBytes := by
      have h1 := h.header_le
      have h2 := h.numBytes_eq
      omega
    have hsize : ∀ c, a.chunkSize c + headerSize ≤ numBytes →
        (a.carved (bytesNeeded howMuch)).chunkSize c + headerSize ≤ numBytes := by
      intro c hc
      show Function.update a.chunkSize _ (bytesNeeded howMuch) c + headerSize ≤ numBytes
      by_cases he : c = a.lastUsed a.myState.activeRAM + a.myState.activeRAM
      · rw [he, Function.update_self]
        exact hle
      · rw [Function.update_of_ne he]
        exact hc
    refine ⟨⟨h.numBytes_eq, ?_, fun x c hc => hsize c (h.free x c hc), fun q hq => ?_⟩, hle⟩
    · show headerSize ≤ Function.update a.lastUsed a.myState.activeRAM _ a.myState.activeRAM
      rw [Function.update_self]
      exact h.header_le.trans (Nat.le_add_right _ _)
    · obtain rfl | hq := List.mem_cons.mp hq
      · rw [Nat.add_sub_cancel, Nat.add_comm a.myState.activeRAM]
        show Function.update a.chunkSize _ (bytesNeeded howMuch) _ + headerSize ≤ numBytes
        rw [Function.update_self]
        exact hle
      · exact hsize _ (h.live q hq)
  · exact absurd (congrArg Prod.fst (e.symm.trans hr)) (hne p)

/-- a block keeps its sizes when an object is freed, here or in another block -/
theorem Sized.freeRAM {here : ℕ} (h : Sized a live numBytes) (hm : here ∈ live) :
    Sized (a.freeRAM here) (live.erase here) numBytes := by
  have hlive : ∀ p ∈ live.erase here, a.chunkSize (p - chunkHeaderSize) + headerSize ≤ numBytes :=
    fun p hp => h.live p (List.mem_of_mem_erase hp)
  have hdefault : Sized (a.defaultFreeRAM here) (live.erase here) numBytes := by
    unfold Allocator.defaultFreeRAM
    split
    · refine ⟨h.numBytes_eq, h.header_le, fun i c hc => ?_, hlive⟩
      have hc : c ∈ Function.update a.myState.chunks _ _ i := hc
      by_cases hi : i = 31 - leadingZeros (a.chunkSize (here - chunkHeaderSize))
      · rw [hi, Function.update_self] at hc
        obtain hc | hc := List.mem_append.mp hc
        · exact h.free _ c hc
        · rw [List.mem_singleton.mp hc]
          exact h.live here hm
      · rw [Function.update_of_ne hi] at hc
        exact h.free i c hc
    · split
      · dsimp only
        split
        · unfold Allocator.free
          split <;> exact ⟨h.numBytes_eq, h.header_le, h.free, hlive⟩
        · exact ⟨h.numBytes_eq, h.header_le, h.free, hlive⟩
      · exact ⟨h.numBytes_eq, h.header_le, h.free, hlive⟩
  unfold Allocator.freeRAM
  split
  · exact hdefault
  · exact hdefault
  · exact ⟨h.numBytes_eq, h.header_le, h.free, hlive⟩

/-- the table lies in the block -/
structure Inside (l : ArrayLayout) (t : TableShape) (numBytes : ℕ) : Prop where
  layout : t.layout = l
  pos : 0 < t.numSlots
  le : t.layout.objSize * t.numSlots + t.layout.dataOffset + chunkHeaderSize + headerSize ≤ numBytes

/-- a table whose slots are in a storage that was handed out -/
theorem inside_of_stored {t : TableShape} {l : ArrayLayout} {extra : ℕ} (hl : t.layout = l)
    (hn : 0 < t.numSlots) (hs : l.objSize * t.numSlots ≤ l.storage extra)
    (hb : bytesNeeded (l.request extra) + headerSize ≤ numBytes) : Inside l t numBytes := by
  refine ⟨hl, hn, ?_⟩
  have hpos := Nat.mul_pos l.objSize_pos hn
  unfold ArrayLayout.storage at hs
  rw [hl]
  omega

/-- on a block of 2 GiB the doubled table needs less than 4 GiB -/
theorem Inside.canGrow {l : ArrayLayout} {t : TableShape} (h : Inside l t numBytes)
    (hb : numBytes ≤ 2^31) (ht : l.tail ≤ l.dataOffset) (a : Allocator) : CanGrow t a := by
  have hle := h.le
  have htail : t.layout.tail ≤ t.layout.dataOffset := h.layout ▸ ht
  have hbytes : t.doubledBytes = t.layout.objSize * t.numSlots * 2 := (Nat.mul_assoc _ _ _).symm
  unfold chunkHeaderSize headerSize at hle
  refine ⟨by omega, .inl ?_⟩
  show roundedRequest (t.doubledBytes + t.layout.dataOffset + t.layout.tail) < 2^32
  unfold roundedRequest chunkHeaderSize
  omega

theorem Inside.congr {l : ArrayLayout} {t t' : TableShape} (h : Inside l t numBytes) (ht : t' = t) :
    Inside l t' numBytes := ht ▸ h

/-- what holds of a run on a block of 2 GiB at most -/
structure Small (k : TableKind L T E S) (l : ArrayLayout) (numBytes : ℕ) (s : TableRun T) : Prop where
  sized : Sized s.alloc s.live numBytes
  inside : Inside l (k.shape s.table) numBytes

theorem small_start {place init : ℕ} {thr : Bool} {l : L} {s : TableRun T}
    (h : start k a place numBytes thr l init = some s) : Small k (k.layout l) numBytes s := by
  obtain ⟨a₁, h₁, h⟩ := Option.bind_eq_some_iff.mp h
  split at h
  · next p a₂ hr =>
    obtain ⟨t, ht, rfl⟩ := Option.map_eq_some_iff.mp h
    obtain ⟨hsized, hb⟩ := (sized_setupBlock h₁).getRAM hr
    obtain ⟨hl, hn, hst⟩ := k.shape_create ht
    have hpos : 0 < (k.shape t).numSlots := by
      rw [hn]
      exact lt_of_lt_of_le Nat.zero_lt_two (le_max_right _ _)
    exact ⟨hsized, inside_of_stored hl hpos (hn ▸ hst) hb⟩
  · cases h

theorem Small.step {l : ArrayLayout} {s s' : TableRun T} (h : Small k l numBytes s)
    (hb : numBytes ≤ 2^31) {op : TableOp E S} (hs : step k s op = some s') : Small k l numBytes s' := by
  cases op with
  | insert e fail =>
    unfold TableRun.step at hs
    dsimp only at hs
    split at hs
    · split at hs
      · next p a hr =>
        obtain ⟨t, ht, rfl⟩ := Option.map_eq_some_iff.mp hs
        obtain ⟨hsized, hbytes⟩ := h.sized.getRAM hr
        refine ⟨hsized, ?_⟩
        obtain hsame | ⟨-, hd⟩ := k.shape_insert ht
        · exact h.inside.congr hsame
        · have hl := h.inside.layout
          have hn : (k.shape s.table).howMany = (k.shape s.table).numSlots * 2 := by
            have hle := h.inside.le
            have hmul := Nat.le_mul_of_pos_left (k.shape s.table).numSlots
              (k.shape s.table).layout.objSize_pos
            have hpos : 0 < headerSize := by decide
            exact u32_of_lt (by omega)
          have hpos := h.inside.pos
          refine hl ▸ inside_of_stored hd.layout ?_ (hd.numSlots ▸ hd.stored) hbytes
          rw [hd.numSlots, hn]
          omega
      · cases hs
        exact h
      · cases hs
    · next hg =>
      obtain ⟨t, ht, rfl⟩ := Option.map_eq_some_iff.mp hs
      obtain hsame | ⟨hg', -⟩ := k.shape_insert ht
      · exact ⟨h.sized, h.inside.congr hsame⟩
      · exact absurd hg' hg
  | getRAM howMuch =>
    unfold TableRun.step at hs
    dsimp only at hs
    split at hs
    · next p a hr =>
      cases hs
      exact ⟨(h.sized.getRAM hr).1, h.inside⟩
    · cases hs
      exact h
  | freeRAM here =>
    unfold TableRun.step at hs
    dsimp only at hs
    split_ifs at hs with hm
    cases hs
    exact ⟨h.sized.freeRAM hm, h.inside⟩
  | setPolicy toMe =>
    cases hs
    exact ⟨⟨h.sized.numBytes_eq, h.sized.header_le, h.sized.free, h.sized.live⟩, h.inside⟩

theorem canGrow_of_le {place init : ℕ} {thr : Bool} {l : L} {s₀ s : TableRun T}
    (h0 : start k a place numBytes thr l init = some s₀)
    (hr : Reach (step k) (fun _ _ => True) s₀ s) (hb : numBytes ≤ 2^31)
    (ht : (k.layout l).tail ≤ (k.layout l).dataOffset) : CanGrow (k.shape s.table) s.alloc :=
  (hr.inv (P := Small k (k.layout l) numBytes) (small_start h0)
    fun _ _ _ h _ hs => h.step hb hs).inside.canGrow hb ht s.alloc

/-- **in every state of a run the counts are right exactly where the table can grow**, and on a block
of 2 GiB at most it always can -/
theorem growsRight_iff {K V W : Type*} [BEq K] [Hashable K] [Inhabited K] [Inhabited V] [Inhabited W]
    (a : Allocator) (place numBytes initSize : ℕ) (throwException : Bool) :
    (∀ l s₀ s, start (mapKind K V) a place numBytes throwException l initSize = some s₀ →
      Reach (step (mapKind K V)) (fun _ _ => True) s₀ s →
      (GrowsRight s.table.myArray.shape s.alloc ↔ CanGrow s.table.myArray.shape s.alloc) ∧
      (numBytes ≤ 2^31 → l.tail ≤ l.dataOffset → CanGrow s.table.myArray.shape s.alloc)) ∧
    (∀ l s₀ s, start (joinMapKind W) a place numBytes throwException l initSize = some s₀ →
      Reach (step (joinMapKind W)) (fun _ _ => True) s₀ s →
      (GrowsRight s.table.myArray.shape s.alloc ↔ CanGrow s.table.myArray.shape s.alloc) ∧
      (numBytes ≤ 2^31 → l.table.tail ≤ l.table.dataOffset →
        CanGrow s.table.myArray.shape s.alloc)) :=
  ⟨fun _ _ _ h0 hr => ⟨growsRight_iff_canGrow _ _, fun hb ht => canGrow_of_le h0 hr hb ht⟩,
   fun _ _ _ h0 hr => ⟨growsRight_iff_canGrow _ _, fun hb ht => canGrow_of_le h0 hr hb ht⟩⟩

/-! ## a table that is full -/

/-- the maps behind so many insertions of new keys -/
structure Filled (l : ArrayLayout) (s₀ : TableRun (PDBMap ℕ ℕ)) (slots m : ℕ)
    (s : TableRun (PDBMap ℕ ℕ)) : Prop where
  reach : Reach (step (mapKind ℕ ℕ)) (fun _ _ => True) s₀ s
  good : s.table.Good
  shape : s.table.myArray.shape = ⟨l, slots⟩
  used : s.table.myArray.usedSlots = m
  fresh : ∀ i, m ≤ i → ¬ s.table.myArray.Has i

theorem filled_start {a : Allocator} {place numBytes init : ℕ} {thr : Bool} {l : ArrayLayout}
    {s₀ : TableRun (PDBMap ℕ ℕ)}
    (h : start (mapKind ℕ ℕ) a place numBytes thr l init = some s₀) :
    Filled l s₀ (max init 2) 0 s₀ := by
  obtain ⟨a₁, -, h⟩ := Option.bind_eq_some_iff.mp h
  split at h
  · obtain ⟨t, ht, rfl⟩ := Option.map_eq_some_iff.mp h
    obtain ⟨b, hb, rfl⟩ := Option.map_eq_some_iff.mp ht
    obtain ⟨hs, he, hn, hmax, hl, -⟩ := PairArray.created hb (by split <;> omega)
    have hused : b.usedSlots = 0 := by
      rw [hs.used, he]
      rfl
    refine ⟨.refl, ⟨hs, ?_, ?_⟩, ?_, hused, fun i _ hh => ?_⟩
    · show b.maxSlots = PairArray.fill b.numSlots
      rw [hmax, hn]
    · show b.usedSlots ≤ b.maxSlots
      rw [hused]
      exact Nat.zero_le _
    · show b.shape = _
      rw [PairArray.shape, hl, hn, max_two]
    · have hh : FiniteMap.Has b.entries i := PairArray.has_iff.mp hh
      rw [he] at hh
      obtain ⟨e, he, -⟩ := hh
      exact absurd he List.not_mem_nil
  · cases h

theorem Filled.insert {l : ArrayLayout} {s₀ s : TableRun (PDBMap ℕ ℕ)} {slots m : ℕ}
    (h : Filled l s₀ slots m s) (hm : m < PairArray.fill slots) :
    ∃ s', Filled l s₀ slots (m + 1) s' := by
  have hslots : s.table.myArray.numSlots = slots := congrArg TableShape.numSlots h.shape
  have hfull : s.table.myArray.isOverFull = false := by
    have hlt : s.table.myArray.usedSlots < s.table.myArray.maxSlots := by
      rw [h.good.max, hslots, h.used]
      exact hm
    simpa [PairArray.isOverFull] using hlt
  obtain ⟨t, slot, hidx, hgood, hp, -, -, hn, -⟩ :=
    PDBMap.index_new (fun _ => false) h.good (h.fresh m le_rfl) hfull rfl rfl
  have hstep : step (mapKind ℕ ℕ) s (.insert m fun _ => false) = some { s with table := t } := by
    have hg : (mapKind ℕ ℕ).grows s.table m = false := by
      show decide (_ ∧ _) = false
      rw [hfull]
      simp
    have hins : (mapKind ℕ ℕ).insert (fun _ => false) s.table m = some t :=
      congrArg Outcome.state hidx
    rw [step, hg, hins]
    rfl
  refine ⟨{ s with table := t }, h.reach.tail _ trivial hstep, hgood, ?_, ?_, fun i hi hh => ?_⟩
  · have hshape : t.myArray.shape = s.table.myArray.shape :=
      (PDBMap.shape_insert (congrArg Outcome.state hidx)).resolve_right fun hg => by
        rw [hfull] at hg
        simp at hg
    exact hshape.trans h.shape
  · have hu := hgood.sound.used
    have hlen := hp.length_eq
    have hu₀ := h.good.sound.used
    have hm := h.used
    rw [List.length_cons] at hlen
    unfold PDBMap.entries at hlen
    show t.myArray.usedSlots = m + 1
    omega
  · have hh : FiniteMap.Has t.entries i := PairArray.has_iff.mp hh
    obtain ⟨e, he, hei⟩ := hh.perm hp
    obtain rfl | he := List.mem_cons.mp he
    · have hmi : m = i := eq_of_beq hei
      omega
    · exact h.fresh i (by omega) (PairArray.has_iff.mpr ⟨e, he, hei⟩)

theorem exists_filled {l : ArrayLayout} {s₀ : TableRun (PDBMap ℕ ℕ)} {slots : ℕ}
    (h : Filled l s₀ slots 0 s₀) {m : ℕ} (hm : m ≤ PairArray.fill slots) :
    ∃ s, Filled l s₀ slots m s := by
  induction m with
  | zero => exact ⟨s₀, h⟩
  | succ m ih =>
    obtain ⟨s, hs⟩ := ih (Nat.le_of_succ_le hm)
    exact hs.insert hm

/-- a map with `slots` slots of `objSize` bytes on a block of its own -/
def mapOn (numBytes objSize slots : ℕ) (h : 0 < objSize) : Option (TableRun (PDBMap ℕ ℕ)) :=
  start (mapKind ℕ ℕ) (.blank (fun _ => 0) (fun _ => 0) fun _ => 0) 4096 numBytes true
    ⟨objSize, 64, 8, h⟩ slots

/-- a map on a block of 1 MiB, before it is doubled -/
theorem growsRight_iff_one : ∃ s₀ s, mapOn (2^20) 24 2 (by decide) = some s₀ ∧
    Reach (step (mapKind ℕ ℕ)) (fun _ _ => True) s₀ s ∧ s.table.myArray.usedSlots = 1 ∧
    (GrowsRight s.table.myArray.shape s.alloc ↔ CanGrow s.table.myArray.shape s.alloc) ∧
    CanGrow s.table.myArray.shape s.alloc := by
  obtain ⟨s₀, h₀⟩ := Option.isSome_iff_exists.mp
    (show (mapOn (2^20) 24 2 (by decide)).isSome = true by decide +kernel)
  obtain ⟨s, hs⟩ := exists_filled (filled_start h₀) (m := 1) (by decide)
  obtain ⟨hiff, hsmall⟩ := (growsRight_iff (K := ℕ) (V := ℕ) (W := ℕ) _ _ _ _ _).1 _ s₀ s h₀ hs.reach
  exact ⟨s₀, s, h₀, hs.reach, hs.used, hiff, hsmall (by decide) (by decide)⟩

/-- with 2048 slots of 1 MiB on a block of 6 GiB the next new key doubles a table of 2 GiB: the new
array gets no bytes for its slots -/
theorem growsRight_not_always : ¬ ∀ s₀ s : TableRun (PDBMap ℕ ℕ),
    mapOn (6 * 2^30) (2^20) 2048 (by decide) = some s₀ →
    Reach (step (mapKind ℕ ℕ)) (fun _ _ => True) s₀ s →
    ∀ e, (mapKind ℕ ℕ).grows s.table e = true → GrowsRight s.table.myArray.shape s.alloc := by
  classical
  intro h
  obtain ⟨s₀, h₀⟩ := Option.isSome_iff_exists.mp
    (show (mapOn (6 * 2^30) (2^20) 2048 (by decide)).isSome = true by decide +kernel)
  obtain ⟨s, hs⟩ := exists_filled (filled_start h₀) (m := PairArray.fill 2048) (by decide)
  have hfull : s.table.myArray.isOverFull = true := by
    refine decide_eq_true ?_
    rw [hs.good.max, hs.used]
    exact (congrArg PairArray.fill (congrArg TableShape.numSlots hs.shape)).le
  have hnew : s.table.count (PairArray.fill 2048) = 0 :=
    (PDBMap.count_eq hs.good _).trans (if_neg (hs.fresh _ le_rfl))
  have hgrow := h s₀ s h₀ hs.reach (PairArray.fill 2048) (decide_eq_true ⟨hnew, hfull⟩)
  have hbytes := TableShape.doubleRequest_iff.mp hgrow.request
  rw [hs.shape] at hbytes
  exact absurd hbytes (by decide)

end TableRun
end Netsdb
