import Netsdb.Source.VectorTupleSetIterator

/-!
# `PartitionedVectorTupleSetIterator`

Each of the iterators of a node gets all pages and returns the objects of one partition.  A page goes
to `doneWithVector` in `updatePage`, as soon as its last object was looked at.

* `getNextTupleSet`     the call; `none`: a null handle is used;
* `scanned`             when the first page has an object: what is delivered, and what is released;
* `Holds`               what the iterator is for.
-/

set_option linter.unusedSectionVars false

namespace Netsdb
variable {α : Type*}

/-- what the constructor is told -/
structure Partitioning (α : Type*) where
  myPartitionId : Nat
  numPartitionsPerNode : Nat
  numNodes : Nat
  chunkSize : Nat
  /-- `Hasher::hash` -/
  hash : α → Nat

/-- the object is in the partition -/
def Partitioning.mine (c : Partitioning α) (x : α) : Bool :=
  c.hash x % (c.numPartitionsPerNode * c.numNodes) % c.numPartitionsPerNode == c.myPartitionId

structure PartitionedVectorTupleSetIterator (α : Type*) where
  /-- the pages that `getAnotherVector` has not returned yet -/
  supply : List (SourcePage α)
  iterateOverMe : Option (SourcePage α)
  myPage : Option (SourcePage α)
  pos : Nat
  mySize : Nat
  /-- the column of `output`, with null handles -/
  inputColumn : List (Option (PageHandle α))
  released : List (Released α)

namespace PartitionedVectorTupleSetIterator
variable (c : Partitioning α)

/-- the constructor -/
def create (pages : List (SourcePage α)) : PartitionedVectorTupleSetIterator α :=
  ⟨pages.tail, pages.head?, pages.head?, 0, (pages.head?.map fun p => p.items.length).getD 0, [], []⟩

/-- the handles in the tuple set -/
def handles (s : PartitionedVectorTupleSetIterator α) : List (PageHandle α) :=
  s.inputColumn.filterMap id

/-- `doneWithVector (lastPage)` -/
def donePage (s : PartitionedVectorTupleSetIterator α) : PartitionedVectorTupleSetIterator α :=
  match s.myPage with
  | some page => { s with released := s.released ++ [⟨page, s.handles⟩] }
  | none => s

/-- called with `mySize = 0`; the argument is the supply -/
def updatePage : List (SourcePage α) → PartitionedVectorTupleSetIterator α →
    PartitionedVectorTupleSetIterator α
  | [], s => { s.donePage with myPage := none, iterateOverMe := none }
  | page :: supply, s =>
    if 0 < page.items.length then
      { s.donePage with
        supply := supply
        iterateOverMe := some page
        myPage := some page
        pos := 0
        mySize := page.items.length }
    else
      updatePage supply { s.donePage with
        supply := supply
        iterateOverMe := some page
        myPage := some page
        pos := 0
        mySize := page.items.length }

/-- `inputColumn.resize (n)` -/
def resize (s : PartitionedVectorTupleSetIterator α) (n : Nat) :
    PartitionedVectorTupleSetIterator α :=
  { s with inputColumn := s.inputColumn.take n ++ List.replicate (n - s.inputColumn.length) none }

/-- the loop over the rest of a page; the flag says that the tuple set is full -/
def fillPage (page : SourcePage α) : List α → PartitionedVectorTupleSetIterator α → Nat →
    PartitionedVectorTupleSetIterator α × Nat × Bool
  | [], s, count => (s, count, false)
  | x :: items, s, count =>
    if c.mine x then
      let s := { s with
        inputColumn := s.inputColumn.set count (some ⟨page.id, x⟩)
        pos := s.pos + 1 }
      if count + 1 = c.chunkSize then (s, count + 1, true) else fillPage page items s (count + 1)
    else fillPage page items { s with pos := s.pos + 1 } count

/-- `while (true)`, at most so many pages -/
def fillPages : Nat → PartitionedVectorTupleSetIterator α → Nat →
    Option (PartitionedVectorTupleSetIterator α × Option (List α))
  | 0, _, _ => none
  | fuel + 1, s, count =>
    s.iterateOverMe.bind fun page =>
      match fillPage c page (page.items.drop s.pos) s count with
      | (s, _, true) => some (s, some (s.handles.map PageHandle.object))
      | (s, count, false) =>
        let s := updatePage s.supply { s with mySize := 0 }
        if s.mySize = 0 then
          if count = 0 then some (s, none)
          else some (s.resize count, some ((s.resize count).handles.map PageHandle.object))
        else fillPages fuel { s with pos := 0 } count

def getNextTupleSet (s : PartitionedVectorTupleSetIterator α) :
    Option (PartitionedVectorTupleSetIterator α × Option (List α)) :=
  if s.iterateOverMe = none ∨ s.mySize = 0 then some (s, none)
  else
    let s := if s.pos = s.mySize then updatePage s.supply { s with mySize := 0 } else s
    if s.iterateOverMe = none ∨ s.mySize = 0 then some (s, none)
    else fillPages c (s.supply.length + 1) (s.resize c.chunkSize) 0

/-- the tuple sets up to the end are the objects of the partition in order, and every page is done once -/
def Delivers (c : Partitioning α) (vectors : List (VectorPage α)) : Prop :=
  ∃ sets s, Drains (getNextTupleSet c) (create (numbered vectors)) sets s ∧
    sets.flatten = (vectors.flatMap VectorPage.items).filter c.mine ∧
    s.released.map Released.page = numbered vectors

/-- what the iterator is for: and no page is done whose objects are in the tuple set -/
def Holds (c : Partitioning α) (vectors : List (VectorPage α)) : Prop :=
  ∃ sets s, Drains (getNextTupleSet c) (create (numbered vectors)) sets s ∧
    sets.flatten = (vectors.flatMap VectorPage.items).filter c.mine ∧
    s.released.map Released.page = numbered vectors ∧ ∀ r ∈ s.released, ¬ r.InUse

/-! ## a page -/

variable {c} {vectors : List (VectorPage α)} {s : PartitionedVectorTupleSetIterator α}
  {p : SourcePage α} {delivered cur : List α} {count : Nat} {x : α} {items : List α}

/-- the page has an object of the partition -/
def HasMine (c : Partitioning α) (items : List α) : Prop := ∃ x ∈ items, c.mine x = true

/-- the page `p` is read; `delivered` is what came before -/
structure Reading (c : Partitioning α) (vectors : List (VectorPage α)) (delivered : List α)
    (s : PartitionedVectorTupleSetIterator α) (p : SourcePage α) : Prop where
  cur : s.iterateOverMe = some p
  page : s.myPage = some p
  size : s.mySize = p.items.length
  le : s.pos ≤ p.items.length
  order : s.released.map Released.page ++ p :: s.supply = numbered vectors
  use : ∀ r ∈ s.released, r.InUse ↔ HasMine c r.page.items
  held : (∃ h ∈ s.handles, h.page = p.id) ↔ HasMine c (p.items.take s.pos)
  bound : ∀ h ∈ s.handles, h.page ≤ p.id
  rest : delivered ++ (p.items.drop s.pos ++ s.supply.flatMap fun q => q.items).filter c.mine =
    (vectors.flatMap VectorPage.items).filter c.mine

/-- so many places of the tuple set are filled -/
structure Column (c : Partitioning α) (s : PartitionedVectorTupleSetIterator α) (count : Nat)
    (cur : List α) : Prop where
  length : s.inputColumn.length = c.chunkSize
  lt : count < c.chunkSize
  objects : ((s.inputColumn.take count).filterMap id).map PageHandle.object = cur

/-- the pages are all read -/
structure Finished (c : Partitioning α) (vectors : List (VectorPage α)) (delivered : List α)
    (s : PartitionedVectorTupleSetIterator α) : Prop where
  cur : s.iterateOverMe = none
  order : s.released.map Released.page = numbered vectors
  use : ∀ r ∈ s.released, r.InUse ↔ HasMine c r.page.items
  all : delivered = (vectors.flatMap VectorPage.items).filter c.mine

theorem hasMine_append (l : List α) (x : α) :
    HasMine c (l ++ [x]) ↔ HasMine c l ∨ c.mine x = true := by
  unfold HasMine
  constructor
  · rintro ⟨y, hy, hm⟩
    rcases List.mem_append.mp hy with hy | hy
    · exact .inl ⟨y, hy, hm⟩
    · obtain rfl := List.mem_singleton.mp hy
      exact .inr hm
  · rintro (⟨y, hy, hm⟩ | hm)
    · exact ⟨y, List.mem_append_left _ hy, hm⟩
    · exact ⟨x, List.mem_append_right _ List.mem_cons_self, hm⟩

theorem take_next {l : List α} {n : Nat} (h : l.drop n = x :: items) :
    l.take (n + 1) = l.take n ++ [x] ∧ l.drop (n + 1) = items ∧ n < l.length := by
  have hlt : n < l.length := by
    have hlen := congrArg List.length h
    rw [List.length_drop, List.length_cons] at hlen
    omega
  rw [List.drop_eq_getElem_cons hlt] at h
  obtain ⟨rfl, rfl⟩ := List.cons.inj h
  exact ⟨List.take_succ_eq_append_getElem hlt, rfl, hlt⟩

theorem mem_handles {h : PageHandle α} : h ∈ s.handles ↔ some h ∈ s.inputColumn := by
  unfold handles
  rw [List.mem_filterMap]
  exact ⟨fun ⟨o, ho, he⟩ => (show o = some h from he) ▸ ho, fun hh => ⟨_, hh, rfl⟩⟩

/-- an object of another partition -/
theorem Reading.skip (h : Reading c vectors delivered s p) (hx : p.items.drop s.pos = x :: items)
    (hm : c.mine x = false) : Reading c vectors delivered { s with pos := s.pos + 1 } p := by
  obtain ⟨htake, hdrop, hlt⟩ := take_next hx
  have hrest := h.rest
  rw [hx, List.cons_append, List.filter_cons, hm, if_neg Bool.false_ne_true] at hrest
  refine ⟨h.cur, h.page, h.size, hlt, h.order, h.use, ?_, h.bound, ?_⟩
  · show (∃ h ∈ s.handles, h.page = p.id) ↔ HasMine c (p.items.take (s.pos + 1))
    rw [htake, hasMine_append, hm, h.held]
    simp
  · show delivered ++ (p.items.drop (s.pos + 1) ++ _).filter c.mine = _
    rw [hdrop]
    exact hrest

/-- an object of the partition comes into the tuple set -/
theorem Reading.put (h : Reading c vectors delivered s p) (hx : p.items.drop s.pos = x :: items)
    (hm : c.mine x = true) (hcount : count < s.inputColumn.length) :
    Reading c vectors (delivered ++ [x]) { s with
      inputColumn := s.inputColumn.set count (some ⟨p.id, x⟩)
      pos := s.pos + 1 } p := by
  obtain ⟨htake, hdrop, hlt⟩ := take_next hx
  have hrest := h.rest
  rw [hx, List.cons_append, List.filter_cons, if_pos hm] at hrest
  refine ⟨h.cur, h.page, h.size, hlt, h.order, h.use, ?_, fun y hy => ?_, ?_⟩
  · show _ ↔ HasMine c (p.items.take (s.pos + 1))
    rw [htake, hasMine_append]
    refine ⟨fun _ => .inr hm, fun _ => ⟨⟨p.id, x⟩, ?_, rfl⟩⟩
    rw [mem_handles]
    exact List.mem_set hcount _
  · rw [mem_handles] at hy
    rcases List.mem_or_eq_of_mem_set hy with hy | hy
    · exact h.bound y (mem_handles.mpr hy)
    · obtain rfl := Option.some.inj hy
      exact Nat.le_refl _
  · show delivered ++ [x] ++ (p.items.drop (s.pos + 1) ++ _).filter c.mine = _
    rw [hdrop, List.append_assoc]
    exact hrest

theorem Column.put (h : Column c s count cur) (page : Nat) (x : α) :
    (((s.inputColumn.set count (some ⟨page, x⟩)).take (count + 1)).filterMap id).map
      PageHandle.object = cur ++ [x] := by
  have hlt : count < s.inputColumn.length := by
    rw [h.length]
    exact h.lt
  have hlt' : count < (s.inputColumn.set count (some (⟨page, x⟩ : PageHandle α))).length := by
    rw [List.length_set]
    exact hlt
  rw [List.take_succ_eq_append_getElem hlt', List.getElem_set_self, List.take_set_of_le (Nat.le_refl _),
    List.filterMap_append, List.map_append, h.objects]
  rfl

theorem fillPage_spec (items : List α) : ∀ {s : PartitionedVectorTupleSetIterator α} {count : Nat}
    {cur : List α}, p.items.drop s.pos = items → Reading c vectors (delivered ++ cur) s p →
    Column c s count cur →
    (∃ s' set, fillPage c p items s count = (s', c.chunkSize, true) ∧
        s'.handles.map PageHandle.object = set ∧ set ≠ [] ∧ p.items ≠ [] ∧
        Reading c vectors (delivered ++ set) s' p ∧ s'.inputColumn.length = c.chunkSize) ∨
      ∃ s' count' cur', fillPage c p items s count = (s', count', false) ∧
        Reading c vectors (delivered ++ cur') s' p ∧ s'.pos = p.items.length ∧
        Column c s' count' cur' ∧ s'.supply = s.supply := by
  induction items with
  | nil =>
    intro s count cur hdrop h hcol
    refine .inr ⟨s, count, cur, rfl, h, ?_, hcol, rfl⟩
    have hle := List.drop_eq_nil_iff.mp hdrop
    exact Nat.le_antisymm h.le hle
  | cons x items ih =>
    intro s count cur hdrop h hcol
    obtain ⟨-, hdrop', hlt⟩ := take_next hdrop
    have hne : p.items ≠ [] := List.ne_nil_of_length_pos (Nat.zero_lt_of_lt hlt)
    unfold fillPage
    cases hm : c.mine x with
    | false =>
      rw [if_neg Bool.false_ne_true]
      exact ih (s := { s with pos := s.pos + 1 }) hdrop' (h.skip hdrop hm)
        ⟨hcol.length, hcol.lt, hcol.objects⟩
    | true =>
      have hcount : count < s.inputColumn.length := by
        rw [hcol.length]
        exact hcol.lt
      have hput := h.put hdrop hm hcount
      have hobjects := hcol.put p.id x
      have hlength : (s.inputColumn.set count (some (⟨p.id, x⟩ : PageHandle α))).length =
          c.chunkSize := by
        rw [List.length_set]
        exact hcol.length
      rw [List.append_assoc] at hput
      rw [if_pos rfl]
      dsimp only
      by_cases hfull : count + 1 = c.chunkSize
      · rw [if_pos hfull, hfull]
        rw [List.take_of_length_le (by rw [hlength]; exact hfull.ge)] at hobjects
        exact .inl ⟨_, cur ++ [x], rfl, hobjects, by simp, hne, hput, hlength⟩
      · rw [if_neg hfull]
        have hlt := hcol.lt
        exact ih (s := { s with
            inputColumn := s.inputColumn.set count (some ⟨p.id, x⟩)
            pos := s.pos + 1 }) hdrop' hput ⟨hlength, by omega, hobjects⟩

/-! ## the next page -/

/-- the page `p` is read to its end -/
structure AtEnd (c : Partitioning α) (vectors : List (VectorPage α))
    (s : PartitionedVectorTupleSetIterator α) (p : SourcePage α) : Prop where
  page : s.myPage = some p
  size : s.mySize = 0
  order : s.released.map Released.page ++ p :: s.supply = numbered vectors
  use : ∀ r ∈ s.released, r.InUse ↔ HasMine c r.page.items
  held : (∃ h ∈ s.handles, h.page = p.id) ↔ HasMine c p.items
  bound : ∀ h ∈ s.handles, h.page ≤ p.id

theorem donePage_eq (h : s.myPage = some p) :
    s.donePage = { s with released := s.released ++ [⟨p, s.handles⟩] } := by
  unfold donePage
  rw [h]

theorem AtEnd.done (h : AtEnd c vectors s p) :
    (s.released ++ [(⟨p, s.handles⟩ : Released α)]).map Released.page =
        s.released.map Released.page ++ [p] ∧
      ∀ r ∈ s.released ++ [(⟨p, s.handles⟩ : Released α)], r.InUse ↔ HasMine c r.page.items := by
  constructor
  · rw [List.map_append]
    rfl
  · intro r hr
    rcases List.mem_append.mp hr with hr | hr
    · exact h.use r hr
    · obtain rfl := List.mem_singleton.mp hr
      exact h.held

theorem updatePage_spec (supply : List (SourcePage α)) :
    ∀ {s : PartitionedVectorTupleSetIterator α} {p : SourcePage α}, s.supply = supply →
    AtEnd c vectors s p →
    delivered ++ (supply.flatMap fun q => q.items).filter c.mine =
      (vectors.flatMap VectorPage.items).filter c.mine →
    (updatePage supply s).inputColumn = s.inputColumn ∧
      ((updatePage supply s).mySize = 0 ∧ Finished c vectors delivered (updatePage supply s) ∨
      ∃ q, Reading c vectors delivered (updatePage supply s) q ∧ q.items ≠ [] ∧
        (updatePage supply s).pos = 0 ∧ (updatePage supply s).supply.length < supply.length) := by
  induction supply with
  | nil =>
    intro s p hsupply h hrest
    obtain ⟨hmap, huse⟩ := h.done
    have horder := h.order
    rw [hsupply] at horder
    unfold updatePage
    rw [donePage_eq h.page]
    refine ⟨rfl, .inl ⟨h.size, rfl, hmap.trans horder, huse, ?_⟩⟩
    rw [List.flatMap_nil, List.filter_nil, List.append_nil] at hrest
    exact hrest
  | cons page supply ih =>
    intro s p hsupply h hrest
    obtain ⟨hmap, huse⟩ := h.done
    have horder := h.order
    rw [hsupply] at horder
    have hid : page.id = p.id + 1 := numbered_next horder
    have hnone : ¬ ∃ h ∈ s.handles, h.page = page.id := by
      rintro ⟨y, hy, he⟩
      have := h.bound y hy
      omega
    have hbound : ∀ y ∈ s.handles, y.page ≤ page.id := by
      intro y hy
      have := h.bound y hy
      omega
    have horder' : (s.released ++ [(⟨p, s.handles⟩ : Released α)]).map Released.page ++
        page :: supply = numbered vectors := by
      rw [hmap, List.append_assoc]
      exact horder
    rw [List.flatMap_cons] at hrest
    unfold updatePage
    rw [donePage_eq h.page]
    by_cases hlen : 0 < page.items.length
    · rw [if_pos hlen]
      refine ⟨rfl, .inr ⟨page, ⟨rfl, rfl, rfl, Nat.zero_le _, horder', huse, ?_, hbound, hrest⟩,
        List.ne_nil_of_length_pos hlen, rfl, Nat.lt_succ_self _⟩⟩
      refine ⟨fun hh => absurd hh hnone, fun hh => ?_⟩
      obtain ⟨y, hy, -⟩ := hh
      exact absurd hy List.not_mem_nil
    · rw [if_neg hlen]
      have hempty : page.items = [] := List.length_eq_zero_iff.mp (by omega)
      have hend : AtEnd c vectors { s with
          released := s.released ++ [⟨p, s.handles⟩]
          supply := supply
          iterateOverMe := some page
          myPage := some page
          pos := 0
          mySize := page.items.length } page := by
        refine ⟨rfl, congrArg List.length hempty, horder', huse, ?_, hbound⟩
        refine ⟨fun hh => absurd hh hnone, fun hh => ?_⟩
        obtain ⟨y, hy, -⟩ := hh
        rw [hempty] at hy
        exact absurd hy List.not_mem_nil
      rw [hempty, List.nil_append] at hrest
      obtain ⟨hcol, hfin | ⟨q, hq, hne, hpos, hless⟩⟩ := ih rfl hend hrest
      · exact ⟨hcol, .inl hfin⟩
      · exact ⟨hcol, .inr ⟨q, hq, hne, hpos, Nat.lt_succ_of_lt hless⟩⟩

theorem Reading.next (h : Reading c vectors delivered s p) (hpos : s.pos = p.items.length) :
    (updatePage s.supply { s with mySize := 0 }).inputColumn = s.inputColumn ∧
      ((updatePage s.supply { s with mySize := 0 }).mySize = 0 ∧
        Finished c vectors delivered (updatePage s.supply { s with mySize := 0 }) ∨
      ∃ q, Reading c vectors delivered (updatePage s.supply { s with mySize := 0 }) q ∧
        q.items ≠ [] ∧ (updatePage s.supply { s with mySize := 0 }).pos = 0 ∧
        (updatePage s.supply { s with mySize := 0 }).supply.length < s.supply.length) := by
  have hheld := h.held
  have hrest := h.rest
  rw [hpos, List.take_length] at hheld
  rw [hpos, List.drop_length, List.nil_append] at hrest
  exact updatePage_spec s.supply (s := { s with mySize := 0 }) rfl
    ⟨h.page, rfl, h.order, h.use, hheld, h.bound⟩ hrest

theorem resize_spec {n : Nat} (h : s.inputColumn.length = n ∨ s.inputColumn = []) :
    (s.resize n).inputColumn.length = n ∧ (s.resize n).handles = s.handles := by
  unfold resize handles
  rcases h with rfl | h
  · dsimp only
    rw [List.take_length, Nat.sub_self, List.replicate_zero, List.append_nil]
    exact ⟨rfl, rfl⟩
  · dsimp only
    rw [h]
    refine ⟨by simp, ?_⟩
    rw [List.take_nil, List.nil_append]
    apply List.filterMap_eq_nil_iff.mpr
    intro o ho
    exact List.eq_of_mem_replicate ho

theorem fillPages_spec (fuel : Nat) : ∀ {s : PartitionedVectorTupleSetIterator α} {p : SourcePage α}
    {count : Nat} {cur : List α}, s.supply.length < fuel → Reading c vectors (delivered ++ cur) s p →
    Column c s count cur →
    (∃ s', fillPages c fuel s count = some (s', none) ∧ Finished c vectors delivered s') ∨
      (∃ s' set, fillPages c fuel s count = some (s', some set) ∧
        Finished c vectors (delivered ++ set) s') ∨
      ∃ s' set q, fillPages c fuel s count = some (s', some set) ∧ set ≠ [] ∧
        q.items ≠ [] ∧ Reading c vectors (delivered ++ set) s' q ∧ s'.inputColumn.length = c.chunkSize := by
  induction fuel with
  | zero => exact fun h => absurd h (Nat.not_lt_zero _)
  | succ fuel ih =>
    intro s p count cur hfuel h hcol
    unfold fillPages
    rw [h.cur, Option.bind_some]
    obtain ⟨s', set, hfill, hset, hne, hpne, hread, hlen⟩ |
      ⟨s', count', cur', hfill, hread, hpos, hcol', hsupply⟩ :=
        fillPage_spec (p.items.drop s.pos) rfl h hcol
    · rw [hfill]
      exact .inr (.inr ⟨s', set, p, by rw [← hset], hne, hpne, hread, hlen⟩)
    · rw [hfill]
      dsimp only
      obtain ⟨hsame, hnext⟩ := hread.next hpos
      generalize updatePage s'.supply { s' with mySize := 0 } = t at hsame hnext
      obtain ⟨hzero, hfin⟩ | ⟨q, hq, hqne, hqpos, hless⟩ := hnext
      · rw [if_pos hzero]
        have hobjects := hcol'.objects
        by_cases hcount : count' = 0
        · rw [if_pos hcount]
          left
          refine ⟨t, rfl, ?_⟩
          rw [hcount] at hobjects
          rw [← hobjects] at hfin
          simpa using hfin
        · rw [if_neg hcount]
          right
          left
          have hlt := hcol'.lt
          have hlength := hcol'.length
          have hhandles : (t.resize count').handles.map PageHandle.object = cur' := by
            unfold resize handles
            dsimp only
            rw [hsame, hlength, Nat.sub_eq_zero_of_le hlt.le, List.replicate_zero, List.append_nil]
            exact hobjects
          refine ⟨_, _, rfl, ?_⟩
          rw [hhandles]
          exact ⟨hfin.cur, hfin.order, hfin.use, hfin.all⟩
      · have hsize : t.mySize ≠ 0 := by
          rw [hq.size]
          exact fun h0 => hqne (List.length_eq_zero_iff.mp h0)
        rw [if_neg hsize]
        have htpos : { t with pos := 0 } = t := by rw [← hqpos]
        rw [htpos]
        rw [hsupply] at hless
        exact ih (by omega) hq ⟨hsame ▸ hcol'.length, hcol'.lt, hsame ▸ hcol'.objects⟩

/-! ## all calls -/

/-- the objects of the partition that are left, and one for the end -/
def left (c : Partitioning α) (s : PartitionedVectorTupleSetIterator α) : Nat :=
  match s.iterateOverMe with
  | none => 0
  | some p =>
    1 + ((p.items.drop s.pos ++ s.supply.flatMap fun q => q.items).filter c.mine).length

/-- between two calls -/
inductive Between (c : Partitioning α) (vectors : List (VectorPage α)) (sets : List (List α))
    (s : PartitionedVectorTupleSetIterator α) : Prop
  | reading (p : SourcePage α) : Reading c vectors sets.flatten s p → p.items ≠ [] →
      s.inputColumn.length = c.chunkSize ∨ s.inputColumn = [] → Between c vectors sets s
  | finished : Finished c vectors sets.flatten s → Between c vectors sets s

theorem Reading.left_eq (h : Reading c vectors delivered s p) :
    delivered.length + s.left c =
      1 + ((vectors.flatMap VectorPage.items).filter c.mine).length := by
  have hlen := congrArg List.length h.rest
  rw [List.length_append] at hlen
  unfold left
  rw [h.cur]
  dsimp only
  omega

theorem Finished.left_eq (h : Finished c vectors delivered s) : s.left c = 0 := by
  unfold left
  rw [h.cur]

/-- a call, when a page with an unread object is there -/
theorem Reading.fillPages {sets : List (List α)} (h : Reading c vectors sets.flatten s p)
    (hc : 0 < c.chunkSize) (hcol : s.inputColumn.length = c.chunkSize ∨ s.inputColumn = []) :
    (∃ s', fillPages c (s.supply.length + 1) (s.resize c.chunkSize) 0 = some (s', none) ∧
        Finished c vectors sets.flatten s') ∨
      ∃ s' set, fillPages c (s.supply.length + 1) (s.resize c.chunkSize) 0 = some (s', some set) ∧
        Between c vectors (sets ++ [set]) s' ∧ s'.left c < s.left c := by
  obtain ⟨hlen, hhandles⟩ := resize_spec hcol
  have hread : Reading c vectors (sets.flatten ++ []) (s.resize c.chunkSize) p := by
    rw [List.append_nil]
    exact ⟨h.cur, h.page, h.size, h.le, h.order, h.use, hhandles ▸ h.held, hhandles ▸ h.bound, h.rest⟩
  have hflat : ∀ set : List α, (sets ++ [set]).flatten = sets.flatten ++ set := by
    intro set
    rw [List.flatten_append, List.flatten_singleton]
  have hleft := h.left_eq
  obtain ⟨s', hs', hfin⟩ | ⟨s', set, hs', hfin⟩ | ⟨s', set, q, hs', hne, hqne, hq, hlen'⟩ :=
    fillPages_spec (s.supply.length + 1) (s := s.resize c.chunkSize) (Nat.lt_succ_self _) hread
      ⟨hlen, hc, rfl⟩
  · exact .inl ⟨s', hs', hfin⟩
  · refine .inr ⟨s', set, hs', .finished (by rw [hflat]; exact hfin), ?_⟩
    rw [hfin.left_eq]
    unfold left
    rw [h.cur]
    dsimp only
    omega
  · have hset : 0 < set.length := List.length_pos_of_ne_nil hne
    have hleft' := hq.left_eq
    rw [List.length_append] at hleft'
    refine .inr ⟨s', set, hs', .reading q (by rw [hflat]; exact hq) hqne (.inl hlen'), ?_⟩
    omega

theorem Between.call {sets : List (List α)} (h : Between c vectors sets s) (hc : 0 < c.chunkSize) :
    (∃ s', getNextTupleSet c s = some (s', none) ∧ Finished c vectors sets.flatten s') ∨
      ∃ s' set, getNextTupleSet c s = some (s', some set) ∧
        Between c vectors (sets ++ [set]) s' ∧ s'.left c < s.left c := by
  unfold getNextTupleSet
  cases h with
  | finished hfin =>
    rw [if_pos (.inl hfin.cur)]
    exact .inl ⟨s, rfl, hfin⟩
  | reading p hread hne hcol =>
    have hnot : ∀ {t : PartitionedVectorTupleSetIterator α} {q : SourcePage α},
        Reading c vectors sets.flatten t q → q.items ≠ [] →
        ¬ (t.iterateOverMe = none ∨ t.mySize = 0) := by
      rintro t q ht hq (hnone | hzero)
      · rw [ht.cur] at hnone
        cases hnone
      · rw [ht.size] at hzero
        exact hq (List.length_eq_zero_iff.mp hzero)
    rw [if_neg (hnot hread hne)]
    by_cases hpos : s.pos = s.mySize
    · rw [if_pos hpos]
      have hleft := hread.left_eq
      obtain ⟨hsame, hnext⟩ := hread.next (hpos.trans hread.size)
      generalize updatePage s.supply { s with mySize := 0 } = t at hsame hnext
      dsimp only
      obtain ⟨hzero, hfin⟩ | ⟨q, hq, hqne, hqpos, hless⟩ := hnext
      · rw [if_pos (.inl hfin.cur)]
        exact .inl ⟨t, rfl, hfin⟩
      · rw [if_neg (hnot hq hqne)]
        have hleft' := hq.left_eq
        obtain hend | ⟨s', set, hs', hbetween, hlt⟩ := hq.fillPages hc (hsame ▸ hcol)
        · exact .inl hend
        · exact .inr ⟨s', set, hs', hbetween, by omega⟩
    · rw [if_neg hpos, if_neg (hnot hread hne)]
      exact hread.fillPages hc hcol

/-- **All calls up to the end**, when the first page has an object -/
theorem scanned (hc : 0 < c.chunkSize) (hfirst : ∀ v ∈ vectors.head?, v.items ≠ []) :
    ∃ sets s, Drains (getNextTupleSet c) (create (numbered vectors)) sets s ∧
      Finished c vectors sets.flatten s := by
  refine Drains.run (P := Between c vectors) (left c) (fun sets s h => h.call hc) ?_
  have hitems := numbered_items vectors
  cases hpages : numbered vectors with
  | nil =>
    rw [hpages, List.flatMap_nil] at hitems
    refine .finished ⟨rfl, hpages.symm, fun r hr => absurd hr List.not_mem_nil, ?_⟩
    rw [← hitems]
    rfl
  | cons p supply =>
    have hp : (numbered vectors)[0]? = some p := by rw [hpages]; rfl
    rw [numbered_getElem?] at hp
    obtain ⟨v, hv, rfl⟩ := Option.map_eq_some_iff.mp hp
    have hne : v.items ≠ [] := hfirst v (by rw [List.head?_eq_getElem?]; exact hv)
    refine .reading ⟨v, 0⟩ ⟨rfl, rfl, rfl, Nat.zero_le _, hpages.symm,
      fun r hr => absurd hr List.not_mem_nil, ?_, fun h hh => absurd hh List.not_mem_nil, ?_⟩ hne
      (.inr rfl)
    · refine ⟨fun hh => ?_, fun hh => ?_⟩
      · obtain ⟨h, hh, -⟩ := hh
        exact absurd hh List.not_mem_nil
      · obtain ⟨x, hx, -⟩ := hh
        exact absurd hx List.not_mem_nil
    · rw [hpages, List.flatMap_cons] at hitems
      exact congrArg (List.filter c.mine) hitems

/-- an empty first page ends the scan, and is not done -/
theorem first_empty (h : Delivers c vectors) : ∀ v ∈ vectors.head?, v.items ≠ [] := by
  intro v hv hempty
  obtain ⟨sets, s, hdrain, -, hdone⟩ := h
  have hp : (numbered vectors)[0]? = some ⟨v, 0⟩ := by
    rw [numbered_getElem?, ← List.head?_eq_getElem?, hv]
    rfl
  cases hpages : numbered vectors with
  | nil =>
    rw [hpages] at hp
    cases hp
  | cons p supply =>
    rw [hpages] at hp hdrain hdone
    obtain rfl := Option.some.inj hp
    have hsize : (create ((⟨v, 0⟩ : SourcePage α) :: supply)).mySize = 0 :=
      congrArg List.length hempty
    have hstop : getNextTupleSet c (create ((⟨v, 0⟩ : SourcePage α) :: supply)) =
        some (create (⟨v, 0⟩ :: supply), none) := if_pos (.inr hsize)
    obtain ⟨-, rfl⟩ := hdrain.det (.stop hstop)
    cases hdone

theorem delivers_iff (hc : 0 < c.chunkSize) :
    Delivers c vectors ↔ ∀ v ∈ vectors.head?, v.items ≠ [] := by
  refine ⟨first_empty, fun hfirst => ?_⟩
  obtain ⟨sets, s, hdrain, hfin⟩ := scanned hc hfirst
  exact ⟨sets, s, hdrain, hfin.all, hfin.order⟩

theorem partitionedScan_iff (hc : 0 < c.chunkSize) : Holds c vectors ↔
    (∀ v ∈ vectors.head?, v.items ≠ []) ∧ ∀ v ∈ vectors, ∀ x ∈ v.items, c.mine x = false := by
  constructor
  · rintro ⟨sets, s, hdrain, hflat, hdone, hsafe⟩
    have hfirst := first_empty ⟨sets, s, hdrain, hflat, hdone⟩
    obtain ⟨sets', s', hdrain', hfin⟩ := scanned hc hfirst
    obtain ⟨-, rfl⟩ := hdrain.det hdrain'
    refine ⟨hfirst, fun v hv x hx => ?_⟩
    obtain ⟨i, hi⟩ := List.mem_iff_getElem?.mp hv
    have hp : (⟨v, i⟩ : SourcePage α) ∈ numbered vectors := by
      apply List.mem_of_getElem? (i := i)
      rw [numbered_getElem?, hi]
      rfl
    rw [← hdone] at hp
    obtain ⟨r, hr, hrp⟩ := List.mem_map.mp hp
    by_contra hmine
    refine hsafe r hr ((hfin.use r hr).mpr ⟨x, ?_, by simpa using hmine⟩)
    rw [hrp]
    exact hx
  · rintro ⟨hfirst, hnone⟩
    obtain ⟨sets, s, hdrain, hfin⟩ := scanned hc hfirst
    refine ⟨sets, s, hdrain, hfin.all, hfin.order, fun r hr huse => ?_⟩
    obtain ⟨x, hx, hm⟩ := (hfin.use r hr).mp huse
    have hp : r.page ∈ numbered vectors := by
      rw [← hfin.order]
      exact List.mem_map_of_mem hr
    have hp' := numbered_mem_split hp
    rw [numbered_getElem?] at hp'
    obtain ⟨v, hv, hvp⟩ := Option.map_eq_some_iff.mp hp'
    rw [← hvp] at hx
    rw [hnone v (List.mem_of_getElem? hv) x hx] at hm
    cases hm

end PartitionedVectorTupleSetIterator

/-! ## both iterators -/

end Netsdb
