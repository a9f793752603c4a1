import Netsdb.Lib.Drain
import Netsdb.ObjectModel.Allocator
import Mathlib.Data.List.Nodup

/-!
# `VectorTupleSetIterator`

The iterator gets pages from `getAnotherVector`, each with a vector of handles, and returns the
objects in tuple sets of a chunk's size.  A page goes to `doneWithVector` when the next tuple set
was filled from a later page.

* `getNextTupleSet`     the call; `none`: `resize` with a negative number throws;
* `released`            the calls of `doneWithVector`, with the handles in the tuple set at that time;
* `Holds`               what the iterator is for, over all calls up to the end.
-/

set_option linter.unusedSectionVars false

namespace Netsdb
variable {α : Type*}

/-- a page with a vector; the array of its handles has less than `2^32` bytes -/
structure VectorPage (α : Type*) where
  items : List α
  lt : items.length < 2^31

/-- a page in the order of `getAnotherVector` -/
structure SourcePage (α : Type*) extends VectorPage α where
  id : Nat

/-- the pages that `getAnotherVector` returns, one after another -/
def numbered (vectors : List (VectorPage α)) : List (SourcePage α) :=
  vectors.mapIdx fun i v => ⟨v, i⟩

/-- a handle in a tuple set: the page of its object, and the object -/
structure PageHandle (α : Type*) where
  page : Nat
  object : α

/-- a call of `doneWithVector` -/
structure Released (α : Type*) where
  page : SourcePage α
  /-- the tuple set at that time -/
  column : List (PageHandle α)

/-- the tuple set has a handle to an object of the page -/
def Released.InUse (r : Released α) : Prop := ∃ h ∈ r.column, h.page = r.page.id

structure VectorTupleSetIterator (α : Type*) where
  chunkSize : Nat
  /-- the pages that `getAnotherVector` has not returned yet -/
  supply : List (SourcePage α)
  iterateOverMe : Option (SourcePage α)
  myRec : Option (SourcePage α)
  lastRec : Option (SourcePage α)
  pos : Nat
  /-- the column of `output` -/
  inputColumn : List (PageHandle α)
  released : List (Released α)

namespace VectorTupleSetIterator

/-- the constructor -/
def create (pages : List (SourcePage α)) (chunkSize : Nat) : VectorTupleSetIterator α :=
  ⟨chunkSize, pages.tail, pages.head?, pages.head?, none, 0, [], []⟩

/-- `if (lastRec != nullptr) doneWithVector (lastRec)` -/
def doneWithLast (s : VectorTupleSetIterator α) : VectorTupleSetIterator α :=
  match s.lastRec with
  | some page => { s with released := s.released ++ [⟨page, s.inputColumn⟩] }
  | none => s

/-- the size of the vector that is iterated over -/
def mySize (s : VectorTupleSetIterator α) : Nat :=
  match s.iterateOverMe with
  | some page => page.items.length
  | none => 0

/-- `while (mySize == 0)`; the argument is the supply -/
def skipEmpty : List (SourcePage α) → VectorTupleSetIterator α → VectorTupleSetIterator α
  | [], s =>
    if s.mySize = 0 then { s.doneWithLast with lastRec := s.myRec, myRec := none } else s
  | page :: supply, s =>
    if s.mySize = 0 then
      skipEmpty supply { s.doneWithLast with
        lastRec := s.myRec
        myRec := some page
        iterateOverMe := some page
        supply := supply }
    else s

/-- `int numSlotsToIterate`, compared with `size_t`s -/
def numSlotsToIterate (chunkSize pos mySize : Nat) : Int :=
  let n := (chunkSize : Int).bmod (2^32)
  if (mySize : Int) < (n + pos) % 2^64 then (mySize : Int) - pos else n

/-- the tuple set is filled with so many objects -/
def fillUp (s : VectorTupleSetIterator α) (page : SourcePage α) (n : Nat) :
    VectorTupleSetIterator α × Option (List α) :=
  let items := (page.items.drop s.pos).take n
  ({ s with pos := s.pos + n, inputColumn := items.map fun x => ⟨page.id, x⟩ }, some items)

def fill (s : VectorTupleSetIterator α) (page : SourcePage α) :
    Option (VectorTupleSetIterator α × Option (List α)) :=
  let n := numSlotsToIterate s.chunkSize s.pos page.items.length
  if n < 0 then none else some (s.fillUp page n.toNat)

/-- `pos = 0`, when the loop has found a vector -/
def restart (s : VectorTupleSetIterator α) : VectorTupleSetIterator α :=
  if s.myRec.isSome then { s with pos := 0 } else s

/-- the vector is at its end -/
def nextVector (s : VectorTupleSetIterator α) : VectorTupleSetIterator α :=
  match s.supply with
  | [] => { s with lastRec := s.myRec, myRec := none }
  | page :: supply =>
    restart (skipEmpty supply { s with
      lastRec := s.myRec
      myRec := some page
      iterateOverMe := some page
      supply := supply })

def getNextTupleSet (s : VectorTupleSetIterator α) :
    Option (VectorTupleSetIterator α × Option (List α)) :=
  match s.iterateOverMe with
  | none => some (s, none)
  | some _ =>
    let s := { s.doneWithLast with lastRec := none }
    let s := skipEmpty s.supply s
    if s.myRec.isSome ∧ s.pos = s.mySize then
      let s := s.nextVector
      match s.myRec with
      | some page => s.fill page
      | none => some (s, none)
    else
      match s.myRec with
      | some page => s.fill page
      | none => some (s, none)

/-- the destructor -/
def destroy (s : VectorTupleSetIterator α) : VectorTupleSetIterator α :=
  { s.doneWithLast with lastRec := none }

/-- what the iterator is for: the tuple sets up to the end are all objects in order, every page is done
once, and while the iterator is called no page is done whose objects are in the tuple set -/
def Holds (vectors : List (VectorPage α)) (chunkSize : Nat) : Prop :=
  ∃ sets s, Drains getNextTupleSet (create (numbered vectors) chunkSize) sets s ∧
    sets.flatten = vectors.flatMap VectorPage.items ∧
    s.destroy.released.map Released.page = numbered vectors ∧ ∀ r ∈ s.released, ¬ r.InUse

/-- and in the destructor -/
def HoldsToTheEnd (vectors : List (VectorPage α)) (chunkSize : Nat) : Prop :=
  ∃ sets s, Drains getNextTupleSet (create (numbered vectors) chunkSize) sets s ∧
    sets.flatten = vectors.flatMap VectorPage.items ∧
    s.destroy.released.map Released.page = numbered vectors ∧ ∀ r ∈ s.destroy.released, ¬ r.InUse

end VectorTupleSetIterator

/-! ## the pages -/

/-- an empty page comes right behind this one, which is not empty -/
def Early (pages : List (SourcePage α)) (page : SourcePage α) : Prop :=
  page.items ≠ [] ∧ ∃ r, pages[page.id + 1]? = some r ∧ r.items = []

theorem numbered_getElem? (vectors : List (VectorPage α)) (i : Nat) :
    (numbered vectors)[i]? = vectors[i]?.map fun v => ⟨v, i⟩ := List.getElem?_mapIdx

theorem numbered_id {vectors : List (VectorPage α)} {i : Nat} {p : SourcePage α}
    (h : (numbered vectors)[i]? = some p) : p.id = i := by
  rw [numbered_getElem?] at h
  obtain ⟨v, -, rfl⟩ := Option.map_eq_some_iff.mp h
  rfl

/-- where a page of the list stands -/
theorem numbered_split {vectors : List (VectorPage α)} {pre post : List (SourcePage α)}
    {p : SourcePage α} (h : pre ++ p :: post = numbered vectors) : p.id = pre.length := by
  have hat : (numbered vectors)[pre.length]? = some p := by
    rw [← h, List.getElem?_append_right (Nat.le_refl _), Nat.sub_self]
    rfl
  exact numbered_id hat

/-- the page behind it -/
theorem numbered_next {vectors : List (VectorPage α)} {pre post : List (SourcePage α)}
    {p q : SourcePage α} (h : pre ++ p :: q :: post = numbered vectors) : q.id = p.id + 1 := by
  have hq : (pre ++ [p]) ++ q :: post = numbered vectors := by
    rw [List.append_assoc]
    exact h
  rw [numbered_split h, numbered_split hq, List.length_append]
  rfl

theorem numbered_items (vectors : List (VectorPage α)) :
    (numbered vectors).flatMap (fun p => p.items) = vectors.flatMap VectorPage.items := by
  suffices hgen : ∀ (l : List (VectorPage α)) (f : Nat → VectorPage α → SourcePage α),
      (∀ i v, (f i v).items = v.items) →
        (l.mapIdx f).flatMap (fun p => p.items) = l.flatMap VectorPage.items from
    hgen vectors _ fun _ _ => rfl
  intro l
  induction l with
  | nil => exact fun f _ => rfl
  | cons v l ih =>
    intro f hf
    rw [List.mapIdx_cons, List.flatMap_cons, List.flatMap_cons, hf, ih _ fun i v => hf (i + 1) v]

theorem numbered_mem_split {vectors : List (VectorPage α)} {p : SourcePage α}
    (h : p ∈ numbered vectors) : (numbered vectors)[p.id]? = some p := by
  obtain ⟨i, hi⟩ := List.mem_iff_getElem?.mp h
  rw [numbered_id hi]
  exact hi

theorem numbered_nodup (vectors : List (VectorPage α)) : (numbered vectors).Nodup := by
  apply List.nodup_iff_getElem?_ne_getElem?.mpr
  intro i j hij hj he
  obtain ⟨p, hp⟩ : ∃ p, (numbered vectors)[j]? = some p := ⟨_, List.getElem?_eq_getElem hj⟩
  have hi := numbered_id (he.trans hp)
  have hj := numbered_id hp
  omega

/-! ## one call -/

namespace VectorTupleSetIterator
variable {vectors : List (VectorPage α)} {s : VectorTupleSetIterator α} {p : SourcePage α}
  {sets : List (List α)} {chunkSize : Nat}

/-- the conversion of the chunk's size to `int` is not `0` -/
theorem numSlotsToIterate_spec {pos mySize : Nat} (hlt : pos < mySize) (hsize : mySize < 2^31)
    (hc : chunkSize % 2^32 ≠ 0) (hneg : (chunkSize : Int).bmod (2^32) < 0 → pos = 0) :
    ∃ n : Nat, numSlotsToIterate chunkSize pos mySize = n ∧ 0 < n ∧ pos + n ≤ mySize ∧
      ((chunkSize : Int).bmod (2^32) < 0 → pos + n = mySize) := by
  unfold numSlotsToIterate
  have hlow : -(2^31) ≤ (chunkSize : Int).bmod (2^32) := by
    have := Int.le_bmod (x := (chunkSize : Int)) (show 0 < 2^32 by decide)
    omega
  have hhigh : (chunkSize : Int).bmod (2^32) < 2^31 := by
    have := Int.bmod_lt (x := (chunkSize : Int)) (show 0 < 2^32 by decide)
    omega
  have hne : (chunkSize : Int).bmod (2^32) ≠ 0 := by
    rw [Int.bmod_def]
    omega
  generalize (chunkSize : Int).bmod (2^32) = n at *
  dsimp only
  by_cases hmany : (mySize : Int) < (n + pos) % 2^64
  · rw [if_pos hmany]
    exact ⟨mySize - pos, by omega, by omega, by omega, by omega⟩
  · rw [if_neg hmany]
    exact ⟨n.toNat, by omega, by omega, by omega, by omega⟩

theorem numSlotsToIterate_zero (mySize : Nat) (hc : chunkSize % 2^32 = 0) :
    numSlotsToIterate chunkSize 0 mySize = (0 : Nat) := by
  have hzero : (chunkSize : Int).bmod (2^32) = 0 := by
    rw [Int.bmod_def]
    omega
  have hnot : ¬ (mySize : Int) < (0 + (0 : Nat)) % 2^64 := by
    rw [Int.natCast_zero, Int.add_zero, Int.zero_emod]
    exact Int.not_lt.mpr (Int.natCast_nonneg _)
  unfold numSlotsToIterate
  rw [hzero]
  exact if_neg hnot

theorem fill_eq {n : Nat} (h : numSlotsToIterate s.chunkSize s.pos p.items.length = n) :
    s.fill p = some (s.fillUp p n) := by
  unfold fill
  rw [h]
  exact if_neg (Int.not_lt.mpr (Int.natCast_nonneg n))

/-- before a `while (mySize == 0)` -/
structure Mid (pages : List (SourcePage α)) (s : VectorTupleSetIterator α) (p : SourcePage α) :
    Prop where
  cur : s.iterateOverMe = some p
  myRec : s.myRec = some p
  order : s.released.map Released.page ++ (s.lastRec.toList ++ p :: s.supply) = pages
  inUse : ∀ q ∈ s.lastRec.toList ++ p :: s.supply,
    (∃ h ∈ s.inputColumn, h.page = q.id) ↔ s.lastRec = some q ∧ q.items ≠ []
  early : ∀ r ∈ s.released, r.InUse ↔ Early pages r.page

/-- at the end -/
structure Ended (pages : List (SourcePage α)) (s : VectorTupleSetIterator α) : Prop where
  order : s.released.map Released.page ++ s.lastRec.toList = pages
  early : ∀ r ∈ s.released, r.InUse ↔ Early pages r.page
  last : ∀ q, s.lastRec = some q → ((∃ h ∈ s.inputColumn, h.page = q.id) ↔ q.items ≠ [])
  some_last : pages ≠ [] → s.lastRec ≠ none

theorem skipEmpty_of_ne {supply : List (SourcePage α)} (h : s.mySize ≠ 0) :
    skipEmpty supply s = s := by
  cases supply with
  | nil =>
    unfold skipEmpty
    rw [if_neg h]
  | cons page supply =>
    unfold skipEmpty
    rw [if_neg h]

theorem mySize_eq (h : s.iterateOverMe = some p) : s.mySize = p.items.length := by
  unfold mySize
  rw [h]

theorem doneWithLast_eq (s : VectorTupleSetIterator α) : s.doneWithLast =
    { s with released := s.released ++ s.lastRec.toList.map fun page => ⟨page, s.inputColumn⟩ } := by
  obtain ⟨chunkSize, supply, cur, myRec, last, pos, column, released⟩ := s
  cases last with
  | none =>
    show _ = (⟨chunkSize, supply, cur, myRec, none, pos, column, released ++ []⟩ :
      VectorTupleSetIterator α)
    rw [List.append_nil]
    rfl
  | some page => rfl

/-- the page before `p` is done -/
theorem done_spec
    (horder : s.released.map Released.page ++ (s.lastRec.toList ++ p :: s.supply) = numbered vectors)
    (hearly : ∀ r ∈ s.released, r.InUse ↔ Early (numbered vectors) r.page)
    (huse : ∀ q, s.lastRec = some q →
      ((∃ h ∈ s.inputColumn, h.page = q.id) ↔ q.items ≠ [] ∧ p.items = [])) :
    (s.doneWithLast.released.map Released.page = s.released.map Released.page ++ s.lastRec.toList) ∧
      ∀ r ∈ s.doneWithLast.released, r.InUse ↔ Early (numbered vectors) r.page := by
  rw [doneWithLast_eq]
  constructor
  · show (s.released ++ s.lastRec.toList.map _).map Released.page = _
    rw [List.map_append, List.map_map]
    congr 1
    exact List.map_id _
  · intro r hr
    rcases List.mem_append.mp hr with hr | hr
    · exact hearly r hr
    · obtain ⟨q, hq, rfl⟩ := List.mem_map.mp hr
      have hlast : s.lastRec = some q := Option.mem_toList.mp hq
      rw [hlast] at horder
      have hid : p.id = q.id + 1 := numbered_next horder
      have hnext : (numbered vectors)[q.id + 1]? = some p := by
        rw [← hid]
        apply numbered_mem_split
        rw [← horder]
        simp
      show (∃ h ∈ s.inputColumn, h.page = q.id) ↔ _
      rw [huse q hlast]
      refine ⟨fun hh => ⟨hh.1, p, hnext, hh.2⟩, fun hh => ?_⟩
      obtain ⟨hne, r, hr, hempty⟩ := hh
      obtain rfl := Option.some.inj (hnext.symm.trans hr)
      exact ⟨hne, hempty⟩

/-- the page before is another one -/
theorem Mid.last_ne {q : SourcePage α} (h : Mid (numbered vectors) s p) (hq : q ∈ p :: s.supply) :
    s.lastRec ≠ some q := by
  intro hlast
  have hnodup := numbered_nodup vectors
  rw [← h.order, hlast] at hnodup
  have htail := (List.nodup_append.mp hnodup).2.1
  exact (List.nodup_cons.mp htail).1 hq

theorem Mid.unused {q : SourcePage α} (h : Mid (numbered vectors) s p) (hq : q ∈ p :: s.supply) :
    ¬ ∃ h ∈ s.inputColumn, h.page = q.id := by
  intro hh
  exact h.last_ne hq ((h.inUse q (List.mem_append_right _ hq)).mp hh).1

theorem Mid.done (h : Mid (numbered vectors) s p) (hp : p.items = []) :
    (s.doneWithLast.released.map Released.page = s.released.map Released.page ++ s.lastRec.toList) ∧
      ∀ r ∈ s.doneWithLast.released, r.InUse ↔ Early (numbered vectors) r.page := by
  refine done_spec h.order h.early fun q hq => ?_
  rw [h.inUse q (List.mem_append_left _ (Option.mem_toList.mpr hq))]
  exact ⟨fun hh => ⟨hh.2, hp⟩, fun hh => ⟨hq, hh.1⟩⟩

theorem skipEmpty_spec (supply : List (SourcePage α)) : ∀ {s : VectorTupleSetIterator α}
    {p : SourcePage α}, s.supply = supply → Mid (numbered vectors) s p →
    (Ended (numbered vectors) (skipEmpty supply s) ∧ (skipEmpty supply s).myRec = none ∧
        p.items ++ supply.flatMap (fun q => q.items) = []) ∨
      ∃ q, Mid (numbered vectors) (skipEmpty supply s) q ∧ q.items ≠ [] ∧
        (skipEmpty supply s).pos = s.pos ∧ (skipEmpty supply s).chunkSize = s.chunkSize ∧
        q.items ++ (skipEmpty supply s).supply.flatMap (fun q => q.items) =
          p.items ++ supply.flatMap fun q => q.items := by
  induction supply with
  | nil =>
    intro s p hsupply h
    have hsize := mySize_eq h.cur
    by_cases hp : p.items = []
    · left
      rw [hp] at hsize
      have hskip : skipEmpty [] s = { s.doneWithLast with lastRec := s.myRec, myRec := none } :=
        if_pos hsize
      obtain ⟨hmap, hearly⟩ := h.done hp
      have horder := h.order
      rw [hsupply] at horder
      rw [hskip]
      refine ⟨⟨?_, hearly, fun q hq => ?_, fun _ => ?_⟩, rfl, by rw [hp]; rfl⟩
      · show s.doneWithLast.released.map Released.page ++ s.myRec.toList = _
        rw [hmap, h.myRec, List.append_assoc]
        exact horder
      · have hpq : p = q := Option.some.inj (h.myRec.symm.trans hq)
        subst hpq
        have hcol : s.doneWithLast.inputColumn = s.inputColumn := by rw [doneWithLast_eq]
        show (∃ h ∈ s.doneWithLast.inputColumn, h.page = p.id) ↔ _
        rw [hcol]
        exact ⟨fun hh => absurd hh (h.unused List.mem_cons_self), fun hh => absurd hp hh⟩
      · show s.myRec ≠ none
        rw [h.myRec]
        exact Option.some_ne_none _
    · right
      have hne : s.mySize ≠ 0 := by
        rw [hsize]
        exact fun h0 => hp (List.length_eq_zero_iff.mp h0)
      rw [skipEmpty_of_ne hne]
      exact ⟨p, h, hp, rfl, rfl, by rw [hsupply]⟩
  | cons page supply ih =>
    intro s p hsupply h
    have hsize := mySize_eq h.cur
    by_cases hp : p.items = []
    · rw [hp] at hsize
      have hskip : skipEmpty (page :: supply) s = skipEmpty supply { s.doneWithLast with
          lastRec := s.myRec
          myRec := some page
          iterateOverMe := some page
          supply := supply } := if_pos hsize
      obtain ⟨hmap, hearly⟩ := h.done hp
      have hcol : s.doneWithLast.inputColumn = s.inputColumn := by rw [doneWithLast_eq]
      have hmid : Mid (numbered vectors) { s.doneWithLast with
          lastRec := s.myRec
          myRec := some page
          iterateOverMe := some page
          supply := supply } page := by
        refine ⟨rfl, rfl, ?_, fun q hq => ?_, hearly⟩
        · show s.doneWithLast.released.map Released.page ++ (s.myRec.toList ++ page :: supply) = _
          rw [hmap, h.myRec, List.append_assoc, ← h.order, hsupply]
          rfl
        · show (∃ h ∈ s.doneWithLast.inputColumn, h.page = q.id) ↔ s.myRec = some q ∧ q.items ≠ []
          have hq' : q ∈ p :: s.supply := by
            rw [hsupply]
            rw [h.myRec] at hq
            exact hq
          rw [hcol, h.myRec]
          refine ⟨fun hh => absurd hh (h.unused hq'), fun hh => ?_⟩
          obtain ⟨hpq, hne⟩ := hh
          exact absurd (Option.some.inj hpq ▸ hp) hne
      have ih' := ih (s := { s.doneWithLast with
          lastRec := s.myRec
          myRec := some page
          iterateOverMe := some page
          supply := supply }) rfl hmid
      have hsame : s.doneWithLast.pos = s.pos ∧ s.doneWithLast.chunkSize = s.chunkSize := by
        rw [doneWithLast_eq]
        exact ⟨rfl, rfl⟩
      rw [hskip, hp, List.nil_append, List.flatMap_cons]
      obtain ⟨hend, hnone, hempty⟩ | ⟨q, hq, hne, hpos, hchunk, hitems⟩ := ih'
      · exact .inl ⟨hend, hnone, hempty⟩
      · exact .inr ⟨q, hq, hne, hpos.trans hsame.1, hchunk.trans hsame.2, hitems⟩
    · right
      have hne : s.mySize ≠ 0 := by
        rw [hsize]
        exact fun h0 => hp (List.length_eq_zero_iff.mp h0)
      rw [skipEmpty_of_ne hne]
      exact ⟨p, h, hp, rfl, rfl, by rw [hsupply]⟩

/-! ## all calls -/

/-- the iterator is at an object of `p` -/
structure Ready (vectors : List (VectorPage α)) (chunkSize : Nat) (sets : List (List α))
    (s : VectorTupleSetIterator α) (p : SourcePage α) : Prop where
  cur : s.iterateOverMe = some p
  myRec : s.myRec = some p
  chunk : s.chunkSize = chunkSize
  nonempty : p.items ≠ []
  order : s.released.map Released.page ++ (s.lastRec.toList ++ p :: s.supply) = numbered vectors
  early : ∀ r ∈ s.released, r.InUse ↔ Early (numbered vectors) r.page
  delivered : sets.flatten ++ (p.items.drop s.pos ++ s.supply.flatMap fun q => q.items) =
    vectors.flatMap VectorPage.items

/-- the last tuple set was filled from `p` -/
structure Running (vectors : List (VectorPage α)) (chunkSize : Nat) (sets : List (List α))
    (s : VectorTupleSetIterator α) (p : SourcePage α) : Prop
    extends Ready vectors chunkSize sets s p where
  pos_le : s.pos ≤ p.items.length
  whole : (chunkSize : Int).bmod (2^32) < 0 → s.pos = p.items.length
  filled : s.inputColumn ≠ []
  column : ∀ h ∈ s.inputColumn, h.page = p.id

/-- the objects that are left -/
def left (s : VectorTupleSetIterator α) : Nat :=
  s.mySize - s.pos + (s.supply.flatMap fun q => q.items).length

theorem left_eq (h : s.iterateOverMe = some p) :
    s.left = p.items.length - s.pos + (s.supply.flatMap fun q => q.items).length := by
  unfold left
  rw [mySize_eq h]

theorem Ready.fill (h : Ready vectors chunkSize sets s p) (hc : chunkSize % 2^32 ≠ 0)
    (hlt : s.pos < p.items.length) (hneg : (chunkSize : Int).bmod (2^32) < 0 → s.pos = 0) :
    ∃ s' set, s.fill p = some (s', some set) ∧ Running vectors chunkSize (sets ++ [set]) s' p ∧
      s'.left < s.left := by
  obtain ⟨n, hn, hpos, hle, hwhole⟩ := numSlotsToIterate_spec hlt p.lt hc hneg
  rw [← h.chunk] at hn
  refine ⟨_, _, fill_eq hn, ⟨⟨h.cur, h.myRec, h.chunk, h.nonempty, h.order, h.early, ?_⟩, hle, hwhole,
    ?_, ?_⟩, ?_⟩
  · show (sets ++ [(p.items.drop s.pos).take n]).flatten ++ (p.items.drop (s.pos + n) ++ _) = _
    rw [← h.delivered, List.flatten_append, List.flatten_singleton, List.append_assoc,
      ← List.append_assoc ((p.items.drop s.pos).take n), ← List.drop_drop, List.take_append_drop]
  · show ((p.items.drop s.pos).take n).map _ ≠ []
    intro hnil
    have hlen := congrArg List.length hnil
    rw [List.length_map, List.length_take, List.length_drop, List.length_nil] at hlen
    omega
  · intro x hx
    obtain ⟨y, -, rfl⟩ := List.mem_map.mp hx
    rfl
  · have hleft : (s.fillUp p n).1.left = p.items.length - (s.pos + n) +
        (s.supply.flatMap fun q => q.items).length := left_eq h.cur
    show (s.fillUp p n).1.left < s.left
    rw [hleft, left_eq h.cur]
    exact Nat.add_lt_add_right (by omega) _

/-- the call behind `doneWithVector (lastRec)` and the loop over empty pages -/
theorem getNext_eq (h : s.iterateOverMe = some p) : s.getNextTupleSet =
    (let s := skipEmpty s.doneWithLast.supply { s.doneWithLast with lastRec := none }
    if s.myRec.isSome ∧ s.pos = s.mySize then
      match s.nextVector.myRec with
      | some page => s.nextVector.fill page
      | none => some (s.nextVector, none)
    else
      match s.myRec with
      | some page => s.fill page
      | none => some (s, none)) := by
  unfold getNextTupleSet
  rw [h]

/-- `doneWithVector (lastRec)` at the beginning of a call -/
theorem Running.done (h : Running vectors chunkSize sets s p) :
    Ready vectors chunkSize sets { s.doneWithLast with lastRec := none } p ∧
      (s.doneWithLast.pos = s.pos ∧ s.doneWithLast.inputColumn = s.inputColumn ∧
        s.doneWithLast.supply = s.supply ∧ s.doneWithLast.iterateOverMe = some p) := by
  obtain ⟨hmap, hearly⟩ := done_spec h.order h.early fun q hq => by
    -- the tuple set was filled from `p`, which comes behind `q`
    have hnodup := numbered_nodup vectors
    have hmemp : p ∈ numbered vectors := by
      rw [← h.order]
      simp
    have hmemq : q ∈ numbered vectors := by
      rw [← h.order, hq]
      simp
    have hne : q.id ≠ p.id := by
      intro hid
      have hp := numbered_mem_split hmemp
      rw [← hid, numbered_mem_split hmemq] at hp
      obtain rfl := Option.some.inj hp
      rw [← h.order, hq] at hnodup
      have htail := (List.nodup_append.mp hnodup).2.1
      exact (List.nodup_cons.mp htail).1 List.mem_cons_self
    refine ⟨fun hh => ?_, fun hh => absurd hh.2 h.nonempty⟩
    obtain ⟨x, hx, hid⟩ := hh
    exact absurd (hid.symm.trans (h.column x hx)) hne
  have horder := h.order
  have hdelivered := h.delivered
  have hcur := h.cur
  have hrec := h.myRec
  have hchunk := h.chunk
  rw [doneWithLast_eq] at hmap hearly ⊢
  refine ⟨⟨hcur, hrec, hchunk, h.nonempty, ?_, hearly, hdelivered⟩, rfl, rfl, rfl, hcur⟩
  show (s.released ++ s.lastRec.toList.map _).map Released.page ++ ([] ++ p :: s.supply) = _
  rw [hmap, List.nil_append, List.append_assoc]
  exact horder

theorem restart_none (h : s.myRec = none) : s.restart = s := by
  unfold restart
  rw [h]
  rfl

theorem restart_some (h : s.myRec = some p) : s.restart = { s with pos := 0 } := by
  unfold restart
  rw [h]
  rfl

/-- the next vector, behind the end of `p` -/
theorem nextVector_spec (h : Ready vectors chunkSize sets s p) (hlast : s.lastRec = none)
    (hpos : s.pos = p.items.length) (hfilled : s.inputColumn ≠ [])
    (hcolumn : ∀ h ∈ s.inputColumn, h.page = p.id) :
    (s.nextVector.myRec = none ∧ Ended (numbered vectors) s.nextVector ∧
        sets.flatten = vectors.flatMap VectorPage.items) ∨
      ∃ q, Ready vectors chunkSize sets s.nextVector q ∧ s.nextVector.pos = 0 ∧
        s.nextVector.left = s.left := by
  have hdelivered := h.delivered
  rw [hpos, List.drop_length, List.nil_append] at hdelivered
  have huse : ∀ q ∈ p :: s.supply, (∃ h ∈ s.inputColumn, h.page = q.id) ↔ p = q := by
    intro q hq
    have hmem : ∀ r ∈ p :: s.supply, r ∈ numbered vectors := by
      intro r hr
      rw [← h.order]
      exact List.mem_append_right _ (List.mem_append_right _ hr)
    constructor
    · rintro ⟨x, hx, hid⟩
      have hp := numbered_mem_split (hmem p List.mem_cons_self)
      rw [← hcolumn x hx, hid, numbered_mem_split (hmem q hq)] at hp
      exact (Option.some.inj hp).symm
    · rintro rfl
      obtain ⟨x, hx⟩ := List.exists_mem_of_ne_nil _ hfilled
      exact ⟨x, hx, hcolumn x hx⟩
  have horder := h.order
  rw [hlast] at horder
  unfold nextVector
  cases hsupply : s.supply with
  | nil =>
    left
    rw [hsupply] at horder hdelivered huse
    refine ⟨rfl, ⟨?_, h.early, fun q hq => ?_, fun _ => ?_⟩, ?_⟩
    · show s.released.map Released.page ++ s.myRec.toList = _
      rw [h.myRec]
      exact horder
    · obtain rfl := Option.some.inj (h.myRec.symm.trans hq)
      exact (huse p List.mem_cons_self).trans ⟨fun _ => h.nonempty, fun _ => rfl⟩
    · show s.myRec ≠ none
      rw [h.myRec]
      exact Option.some_ne_none _
    · rw [List.flatMap_nil, List.append_nil] at hdelivered
      exact hdelivered
  | cons page supply =>
    rw [hsupply] at horder hdelivered huse
    have hmid : Mid (numbered vectors) { s with
        lastRec := s.myRec
        myRec := some page
        iterateOverMe := some page
        supply := supply } page := by
      refine ⟨rfl, rfl, ?_, fun q hq => ?_, h.early⟩
      · show s.released.map Released.page ++ (s.myRec.toList ++ page :: supply) = _
        rw [h.myRec]
        exact horder
      · show (∃ h ∈ s.inputColumn, h.page = q.id) ↔ s.myRec = some q ∧ q.items ≠ []
        rw [h.myRec] at hq ⊢
        rw [huse q hq]
        refine ⟨fun hpq => ⟨congrArg some hpq, hpq ▸ h.nonempty⟩, fun hh => Option.some.inj hh.1⟩
    have hspec := skipEmpty_spec supply rfl hmid
    dsimp only at hspec ⊢
    generalize skipEmpty supply _ = t at hspec ⊢
    obtain ⟨hend, hnone, hempty⟩ | ⟨q, hq, hne, -, hchunk, hitems⟩ := hspec
    · left
      rw [restart_none hnone]
      refine ⟨hnone, hend, ?_⟩
      rw [List.flatMap_cons, hempty, List.append_nil] at hdelivered
      exact hdelivered
    · right
      rw [restart_some hq.myRec]
      refine ⟨q, ⟨hq.cur, hq.myRec, hchunk.trans h.chunk, hne, hq.order, hq.early, ?_⟩, rfl, ?_⟩
      · show sets.flatten ++ (q.items.drop 0 ++ t.supply.flatMap _) = _
        rw [List.drop_zero, hitems]
        exact hdelivered
      · have hleft : ({ t with pos := 0 } : VectorTupleSetIterator α).left =
            q.items.length - 0 + (t.supply.flatMap fun q => q.items).length := left_eq hq.cur
        rw [hleft, left_eq h.cur, hpos, hsupply]
        have hlen := congrArg List.length hitems
        rw [List.length_append, List.length_append] at hlen
        rw [List.flatMap_cons, List.length_append, Nat.sub_zero, Nat.sub_self, Nat.zero_add]
        exact hlen

theorem Running.call (h : Running vectors chunkSize sets s p) (hc : chunkSize % 2^32 ≠ 0) :
    (∃ s', s.getNextTupleSet = some (s', none) ∧ Ended (numbered vectors) s' ∧
        sets.flatten = vectors.flatMap VectorPage.items) ∨
      ∃ s' set p', s.getNextTupleSet = some (s', some set) ∧
        Running vectors chunkSize (sets ++ [set]) s' p' ∧ s'.left < s.left := by
  obtain ⟨hready, hpos, hcol, hsupply, hcur⟩ := h.done
  have hnext := getNext_eq h.cur
  have hleft : ({ s.doneWithLast with lastRec := none } : VectorTupleSetIterator α).left = s.left := by
    rw [left_eq hready.cur, left_eq h.cur]
    show p.items.length - s.doneWithLast.pos + (s.doneWithLast.supply.flatMap _).length = _
    rw [hpos, hsupply]
  have hsize : ({ s.doneWithLast with lastRec := none } : VectorTupleSetIterator α).mySize =
      p.items.length := mySize_eq hready.cur
  have hne : ({ s.doneWithLast with lastRec := none } : VectorTupleSetIterator α).mySize ≠ 0 := by
    rw [hsize]
    exact fun h0 => h.nonempty (List.length_eq_zero_iff.mp h0)
  rw [skipEmpty_of_ne hne] at hnext
  have hpos₁ : ({ s.doneWithLast with lastRec := none } : VectorTupleSetIterator α).pos = s.pos := hpos
  have hcol₁ : ({ s.doneWithLast with lastRec := none } : VectorTupleSetIterator α).inputColumn =
      s.inputColumn := hcol
  have hlast : ({ s.doneWithLast with lastRec := none } : VectorTupleSetIterator α).lastRec = none := rfl
  generalize ({ s.doneWithLast with lastRec := none } : VectorTupleSetIterator α) = s₁ at *
  dsimp only at hnext
  rw [hready.myRec, hpos₁, hsize] at hnext
  by_cases hend : s.pos = p.items.length
  · rw [if_pos ⟨rfl, hend⟩] at hnext
    obtain ⟨hnone, hended, hall⟩ | ⟨q, hq, hzero, hleft'⟩ :=
      nextVector_spec hready hlast (hpos₁.trans hend) (hcol₁ ▸ h.filled) (hcol₁ ▸ h.column)
    · rw [hnone] at hnext
      exact .inl ⟨_, hnext, hended, hall⟩
    · rw [hq.myRec] at hnext
      have hlt : s₁.nextVector.pos < q.items.length := by
        rw [hzero]
        exact List.length_pos_of_ne_nil hq.nonempty
      obtain ⟨s', set, hfill, hrun, hless⟩ := hq.fill hc hlt fun _ => hzero
      refine .inr ⟨s', set, q, hnext.trans hfill, hrun, ?_⟩
      rw [← hleft, ← hleft']
      exact hless
  · rw [if_neg fun hh => hend hh.2] at hnext
    have hlt : s₁.pos < p.items.length := by
      have := h.pos_le
      omega
    obtain ⟨s', set, hfill, hrun, hless⟩ := hready.fill hc hlt fun hneg => absurd (h.whole hneg) hend
    refine .inr ⟨s', set, p, hnext.trans hfill, hrun, ?_⟩
    rw [← hleft]
    exact hless

theorem create_mid (chunkSize : Nat) {supply : List (SourcePage α)} (hpages : numbered vectors = p :: supply) :
    Mid (numbered vectors) (create (p :: supply) chunkSize) p := by
  refine ⟨rfl, rfl, hpages.symm, fun q _ => ?_, fun r hr => absurd hr List.not_mem_nil⟩
  exact ⟨fun ⟨x, hx, _⟩ => absurd hx List.not_mem_nil, fun hh => by cases hh.1⟩

/-- the first call: there is no object, or it is filled from the first page with objects -/
theorem create_next (vectors : List (VectorPage α)) (chunkSize : Nat) :
    (∃ s', (create (numbered vectors) chunkSize).getNextTupleSet = some (s', none) ∧
        Ended (numbered vectors) s' ∧ [] = vectors.flatMap VectorPage.items) ∨
      ∃ s p, (create (numbered vectors) chunkSize).getNextTupleSet = s.fill p ∧ s.pos = 0 ∧
        Ready vectors chunkSize [] s p ∧ s.left ≤ (create (numbered vectors) chunkSize).left := by
  have hitems := numbered_items vectors
  cases hpages : numbered vectors with
  | nil =>
    rw [hpages] at hitems
    exact .inl ⟨_, rfl, ⟨rfl, fun r hr => absurd hr List.not_mem_nil, fun q hq => (by cases hq),
      fun hne => absurd rfl hne⟩, hitems⟩
  | cons p supply =>
    have hmid := create_mid chunkSize hpages
    have hnext := getNext_eq hmid.cur
    have hspec := skipEmpty_spec supply rfl hmid
    have hdone : ({ (create (p :: supply) chunkSize).doneWithLast with lastRec := none } :
      VectorTupleSetIterator α) = create (p :: supply) chunkSize := rfl
    have hsupply : (create (p :: supply) chunkSize).doneWithLast.supply = supply := rfl
    have hleft : (create (p :: supply) chunkSize).left =
        p.items.length - 0 + (supply.flatMap fun q => q.items).length := left_eq hmid.cur
    rw [hpages, List.flatMap_cons] at hitems
    rw [hdone, hsupply] at hnext
    generalize skipEmpty supply (create (p :: supply) chunkSize) = t at hnext hspec
    dsimp only at hnext
    obtain ⟨hend, hnone, hempty⟩ | ⟨q, hq, hne, hpos, hchunk, hall⟩ := hspec
    · rw [hnone, if_neg fun hh => by cases hh.1] at hnext
      rw [hpages] at hend
      exact .inl ⟨t, hnext, hend, hempty.symm.trans hitems⟩
    · have hzero : t.pos = 0 := hpos
      have hlen : 0 < q.items.length := List.length_pos_of_ne_nil hne
      have hsize := mySize_eq hq.cur
      rw [hq.myRec, if_neg fun hh => by rw [hzero, hsize] at hh; omega] at hnext
      refine .inr ⟨t, q, hnext, hzero, ⟨hq.cur, hq.myRec, hchunk, hne, hq.order, hq.early, ?_⟩, ?_⟩
      · rw [hzero, List.drop_zero, hall]
        exact hitems
      · have hlength := congrArg List.length hall
        rw [List.length_append, List.length_append] at hlength
        rw [left_eq hq.cur, hzero, hleft, Nat.sub_zero, Nat.sub_zero, hlength]

/-- a page with an object -/
theorem Ready.not_empty (h : Ready vectors chunkSize sets s p) :
    ¬ ∀ v ∈ vectors, v.items = [] := by
  intro hall
  have hmem : p ∈ numbered vectors := by
    rw [← h.order]
    simp
  obtain ⟨i, hi⟩ := List.mem_iff_getElem?.mp hmem
  rw [numbered_getElem?] at hi
  obtain ⟨v, hv, rfl⟩ := Option.map_eq_some_iff.mp hi
  exact h.nonempty (hall v (List.mem_of_getElem? hv))

/-- **All calls up to the end.** -/
theorem scanned (hc : chunkSize % 2^32 ≠ 0 ∨ ∀ v ∈ vectors, v.items = []) :
    ∃ sets s, Drains getNextTupleSet (create (numbered vectors) chunkSize) sets s ∧
      Ended (numbered vectors) s ∧ sets.flatten = vectors.flatMap VectorPage.items := by
  refine Drains.run (P := fun sets s => sets = [] ∧ s = create (numbered vectors) chunkSize ∨
    chunkSize % 2^32 ≠ 0 ∧ ∃ p, Running vectors chunkSize sets s p) left ?_ (.inl ⟨rfl, rfl⟩)
  rintro sets s (⟨rfl, rfl⟩ | ⟨hc', p, hrun⟩)
  · obtain ⟨s', hs', hend, hall⟩ | ⟨s, p, hs, hpos, hready, hle⟩ := create_next vectors chunkSize
    · exact .inl ⟨s', hs', hend, hall⟩
    · have hc' : chunkSize % 2^32 ≠ 0 := hc.resolve_right hready.not_empty
      have hlt : s.pos < p.items.length := by
        rw [hpos]
        exact List.length_pos_of_ne_nil hready.nonempty
      obtain ⟨s', set, hfill, hrun, hless⟩ := hready.fill hc' hlt fun _ => hpos
      exact .inr ⟨s', set, hs.trans hfill, .inr ⟨hc', p, hrun⟩, hless.trans_le hle⟩
  · obtain ⟨s', hs', hend, hall⟩ | ⟨s', set, p', hs', hrun', hless⟩ := hrun.call hc'
    · exact .inl ⟨s', hs', hend, hall⟩
    · exact .inr ⟨s', set, hs', .inr ⟨hc', p', hrun'⟩, hless⟩

/-- the size of a chunk is converted to `0`, and there is an object -/
structure Stuck (s : VectorTupleSetIterator α) (p : SourcePage α) : Prop where
  cur : s.iterateOverMe = some p
  myRec : s.myRec = some p
  nonempty : p.items ≠ []
  pos : s.pos = 0
  chunk : s.chunkSize % 2^32 = 0

theorem Stuck.fill (h : Stuck s p) : ∃ s' set, s.fill p = some (s', some set) ∧ Stuck s' p := by
  have hn : numSlotsToIterate s.chunkSize s.pos p.items.length = (0 : Nat) := by
    rw [h.pos]
    exact numSlotsToIterate_zero _ h.chunk
  exact ⟨_, _, fill_eq hn, ⟨h.cur, h.myRec, h.nonempty, h.pos, h.chunk⟩⟩

theorem Stuck.call (h : Stuck s p) : ∃ s' set, s.getNextTupleSet = some (s', some set) ∧
    Stuck s' p := by
  have hnext := getNext_eq h.cur
  have hstuck : Stuck { s.doneWithLast with lastRec := none } p := by
    obtain ⟨hcur, hrec, hne, hpos, hchunk⟩ := h
    rw [doneWithLast_eq]
    exact ⟨hcur, hrec, hne, hpos, hchunk⟩
  have hsize : ({ s.doneWithLast with lastRec := none } : VectorTupleSetIterator α).mySize =
      p.items.length := mySize_eq hstuck.cur
  have hlen : 0 < p.items.length := List.length_pos_of_ne_nil h.nonempty
  rw [skipEmpty_of_ne (by rw [hsize]; exact hlen.ne')] at hnext
  generalize ({ s.doneWithLast with lastRec := none } : VectorTupleSetIterator α) = s₁ at *
  dsimp only at hnext
  rw [hstuck.myRec, if_neg fun hh => by rw [hstuck.pos, hsize] at hh; omega] at hnext
  obtain ⟨s', set, hfill, hs'⟩ := hstuck.fill
  exact ⟨s', set, hnext.trans hfill, hs'⟩

/-- then the end is never reported -/
theorem never_ends (hc : chunkSize % 2^32 = 0) {v : VectorPage α} (hv : v ∈ vectors)
    (hne : v.items ≠ [])
    (h : Drains getNextTupleSet (create (numbered vectors) chunkSize) sets s) : False := by
  refine Drains.never (P := fun s => s = create (numbered vectors) chunkSize ∨ ∃ p, Stuck s p)
    ?_ h (.inl rfl)
  rintro s (rfl | ⟨p, hp⟩)
  · obtain ⟨-, -, -, hnil⟩ | ⟨s, p, hs, hpos, hready, -⟩ := create_next vectors chunkSize
    · exact absurd (List.flatMap_eq_nil_iff.mp hnil.symm v hv) hne
    · have hstuck : Stuck s p :=
        ⟨hready.cur, hready.myRec, hready.nonempty, hpos, by rw [hready.chunk]; exact hc⟩
      obtain ⟨s', set, hfill, hs'⟩ := hstuck.fill
      exact ⟨s', set, hs.trans hfill, .inr ⟨p, hs'⟩⟩
  · obtain ⟨s', set, hs', hstuck⟩ := hp.call
    exact ⟨s', set, hs', .inr ⟨p, hstuck⟩⟩

/-! ## when it holds -/

/-- no empty vector comes right behind one with objects -/
def EmptyFirst (vectors : List (VectorPage α)) : Prop :=
  ∀ i v w, vectors[i]? = some v → vectors[i + 1]? = some w → w.items = [] → v.items = []

theorem emptyFirst_iff : EmptyFirst vectors ↔
    ∀ p ∈ numbered vectors, ¬ Early (numbered vectors) p := by
  constructor
  · rintro h p hp ⟨hne, r, hr, hempty⟩
    have hp' := numbered_mem_split hp
    rw [numbered_getElem?] at hp' hr
    obtain ⟨v, hv, hpv⟩ := Option.map_eq_some_iff.mp hp'
    obtain ⟨w, hw, rfl⟩ := Option.map_eq_some_iff.mp hr
    apply hne
    rw [← hpv]
    exact h p.id v w hv hw hempty
  · intro h i v w hv hw hempty
    by_contra hne
    have hp : (numbered vectors)[i]? = some ⟨v, i⟩ := by rw [numbered_getElem?, hv]; rfl
    have hr : (numbered vectors)[i + 1]? = some ⟨w, i + 1⟩ := by rw [numbered_getElem?, hw]; rfl
    exact h _ (List.mem_of_getElem? hp) ⟨hne, _, hr, hempty⟩

theorem destroy_released (s : VectorTupleSetIterator α) : s.destroy.released =
    s.released ++ s.lastRec.toList.map fun page => ⟨page, s.inputColumn⟩ := by
  unfold destroy
  rw [doneWithLast_eq]

theorem Ended.destroy (h : Ended (numbered vectors) s) :
    s.destroy.released.map Released.page = numbered vectors := by
  rw [destroy_released, List.map_append, List.map_map, ← h.order]
  congr 1
  exact List.map_id _

/-- the last page is not done before the destructor -/
theorem Ended.last_not_early (h : Ended (numbered vectors) s) (hlast : s.lastRec = some p) :
    ¬ Early (numbered vectors) p ∧ p ∈ numbered vectors ∧ p.id + 1 = (numbered vectors).length := by
  have horder := h.order
  rw [hlast] at horder
  have hid : p.id = (s.released.map Released.page).length := numbered_split horder
  have hlen := congrArg List.length horder
  rw [List.length_append] at hlen
  have hlen' : p.id + 1 = (numbered vectors).length := by
    rw [hid]
    exact hlen
  refine ⟨?_, ?_, hlen'⟩
  · rintro ⟨-, r, hr, -⟩
    rw [hlen', List.getElem?_eq_none (Nat.le_refl _)] at hr
    cases hr
  · rw [← horder]
    simp

theorem Ended.released_iff (h : Ended (numbered vectors) s) :
    (∀ r ∈ s.released, ¬ r.InUse) ↔ EmptyFirst vectors := by
  rw [emptyFirst_iff]
  constructor
  · intro hsafe p hp
    rw [← h.order] at hp
    rcases List.mem_append.mp hp with hp | hp
    · obtain ⟨r, hr, rfl⟩ := List.mem_map.mp hp
      exact fun he => hsafe r hr ((h.early r hr).mpr he)
    · exact (h.last_not_early (Option.mem_toList.mp hp)).1
  · intro hnone r hr huse
    refine hnone r.page ?_ ((h.early r hr).mp huse)
    rw [← h.order]
    exact List.mem_append_left _ (List.mem_map_of_mem hr)

theorem vectorScan_iff (vectors : List (VectorPage α)) (chunkSize : Nat) : Holds vectors chunkSize ↔
    (chunkSize % 2^32 ≠ 0 ∨ ∀ v ∈ vectors, v.items = []) ∧ EmptyFirst vectors := by
  constructor
  · rintro ⟨sets, s, hdrain, hflat, hdone, hsafe⟩
    have hc : chunkSize % 2^32 ≠ 0 ∨ ∀ v ∈ vectors, v.items = [] := by
      by_contra hnot
      push Not at hnot
      obtain ⟨hc, v, hv, hne⟩ := hnot
      exact never_ends hc hv hne hdrain
    obtain ⟨sets', s', hdrain', hend, -⟩ := scanned hc
    obtain ⟨-, rfl⟩ := hdrain.det hdrain'
    exact ⟨hc, hend.released_iff.mp hsafe⟩
  · rintro ⟨hc, hfirst⟩
    obtain ⟨sets, s, hdrain, hend, hflat⟩ := scanned hc
    exact ⟨sets, s, hdrain, hflat, hend.destroy, hend.released_iff.mpr hfirst⟩

/-- the vectors before the last one are empty as well -/
theorem EmptyFirst.all (h : EmptyFirst vectors) (n : Nat) : ∀ i v w, vectors[i]? = some v →
    vectors[i + n]? = some w → w.items = [] → v.items = [] := by
  induction n with
  | zero =>
    intro i v w hv hw hempty
    rw [Nat.add_zero, hv] at hw
    cases hw
    exact hempty
  | succ n ih =>
    intro i v w hv hw hempty
    obtain ⟨u, hu⟩ : ∃ u, vectors[i + n]? = some u := by
      have hlt : i + (n + 1) < vectors.length := (List.getElem?_eq_some_iff.mp hw).1
      exact ⟨_, List.getElem?_eq_getElem (by omega)⟩
    exact ih i v u hv hu (h (i + n) u w hu hw hempty)

theorem holdsToTheEnd_iff (vectors : List (VectorPage α)) (chunkSize : Nat) :
    HoldsToTheEnd vectors chunkSize ↔ ∀ v ∈ vectors, v.items = [] := by
  constructor
  · rintro ⟨sets, s, hdrain, hflat, hdone, hsafe⟩ v hv
    have hholds : Holds vectors chunkSize := by
      refine ⟨sets, s, hdrain, hflat, hdone, fun r hr => hsafe r ?_⟩
      rw [destroy_released]
      exact List.mem_append_left _ hr
    obtain ⟨hc, hfirst⟩ := (vectorScan_iff vectors chunkSize).mp hholds
    obtain ⟨sets', s', hdrain', hend, -⟩ := scanned hc
    obtain ⟨-, rfl⟩ := hdrain.det hdrain'
    obtain ⟨i, hi⟩ := List.mem_iff_getElem?.mp hv
    have hilt : i < vectors.length := (List.getElem?_eq_some_iff.mp hi).1
    have hsize : (numbered vectors).length = vectors.length := List.length_mapIdx
    cases hlast : s.lastRec with
    | none =>
      refine absurd hlast (hend.some_last fun hnil => ?_)
      rw [hnil] at hsize
      rw [← hsize] at hilt
      exact absurd hilt (Nat.not_lt_zero _)
    | some q =>
      obtain ⟨-, hq, hlen⟩ := hend.last_not_early hlast
      have hq' := numbered_mem_split hq
      rw [numbered_getElem?] at hq'
      obtain ⟨w, hw, hwq⟩ := Option.map_eq_some_iff.mp hq'
      have hempty : w.items = [] := by
        by_contra hne
        have huse : (⟨q, s.inputColumn⟩ : Released α).InUse := by
          apply (hend.last q hlast).mpr
          rw [← hwq]
          exact hne
        refine hsafe _ ?_ huse
        rw [destroy_released, hlast]
        exact List.mem_append_right _ List.mem_cons_self
      have hpos : i + (q.id - i) = q.id := by omega
      exact hfirst.all (q.id - i) i v w hi (by rw [hpos]; exact hw) hempty
  · intro hall
    have hc : chunkSize % 2^32 ≠ 0 ∨ ∀ v ∈ vectors, v.items = [] := .inr hall
    obtain ⟨sets, s, hdrain, hend, hflat⟩ := scanned hc
    have hfirst : EmptyFirst vectors := fun i v w hv _ _ => hall v (List.mem_of_getElem? hv)
    refine ⟨sets, s, hdrain, hflat, hend.destroy, fun r hr => ?_⟩
    rw [destroy_released] at hr
    rcases List.mem_append.mp hr with hr | hr
    · exact hend.released_iff.mpr hfirst r hr
    · obtain ⟨q, hq, rfl⟩ := List.mem_map.mp hr
      have hlast := Option.mem_toList.mp hq
      have hq' := numbered_mem_split (hend.last_not_early hlast).2.1
      rw [numbered_getElem?] at hq'
      obtain ⟨w, hw, hwq⟩ := Option.map_eq_some_iff.mp hq'
      intro huse
      apply (hend.last q hlast).mp huse
      rw [← hwq]
      exact hall w (List.mem_of_getElem? hw)

end VectorTupleSetIterator
end Netsdb
