import Netsdb.Storage.PageCache

/-!
# The life of a page in the cache

What a step does to a page is seen in a few things only: the page itself, whether the cache has it,
where it is on its way to the file, how many threads are about to free it, whether the table of dirty
pages and the file have it.

* `PageView`, `PageOk`   these things, and how they go together;
* `PageView.Le`          what the steps of other pages may change;
* `Flight`               the way from the flush buffer through a flush consumer.
-/

set_option linter.unusedSectionVars false

namespace Netsdb

theorem CacheKey.ext' {key key' : CacheKey} (hs : key.toSetKey = key'.toSetKey)
    (hid : key.pageId = key'.pageId) : key = key' := by
  cases key
  cases key'
  rw [CacheKey.mk.injEq]
  exact ⟨hs, hid⟩

/-! ## Files -/

namespace DataFile
variable {C : Type*} {f f' : DataFile C} {partitionId pageId seq : Nat} {bytes : C}

@[simp] theorem load_addPageIndex (f : DataFile C) (pageId : Nat) (place : Nat × Nat) (p i : Nat) :
    (f.addPageIndex pageId place).load p i = f.load p i := rfl

/-- an append leaves the pages that are there where they are, and puts one behind -/
theorem load_appendPage (h : f.appendPage partitionId pageId bytes = some (f', seq)) (p i : Nat) :
    f'.load p i = if p = partitionId ∧ i = seq then some (pageId, bytes) else f.load p i := by
  obtain ⟨pages, hp, he⟩ := Option.map_eq_some_iff.mp h
  obtain ⟨rfl, rfl⟩ := Prod.mk.inj he
  obtain ⟨hlt, -⟩ := List.getElem?_eq_some_iff.mp hp
  unfold load
  simp only [addPageIndex, List.getElem?_set]
  by_cases hpp : partitionId = p
  · subst hpp
    rw [if_pos rfl, if_pos hlt, Option.bind_some, hp, Option.bind_some]
    by_cases hi : i = pages.length
    · rw [if_pos ⟨rfl, hi⟩, hi, List.getElem?_concat_length]
    · rw [if_neg fun h => hi h.2]
      rcases Nat.lt_or_ge i pages.length with hlt' | hge
      · rw [List.getElem?_append_left hlt']
      · rw [List.getElem?_eq_none (by rw [List.length_append]; simp; omega),
          List.getElem?_eq_none hge]
  · rw [if_neg hpp, if_neg fun h => hpp h.1.symm]

theorem load_none_of_appendPage (h : f.appendPage partitionId pageId bytes = some (f', seq)) :
    f.load partitionId seq = none := by
  obtain ⟨pages, hp, he⟩ := Option.map_eq_some_iff.mp h
  obtain ⟨rfl, rfl⟩ := Prod.mk.inj he
  rw [load, hp, Option.bind_some, List.getElem?_length]

theorem load_mono (h : f.appendPage partitionId pageId bytes = some (f', seq)) {p i : Nat}
    {e : Nat × C} (he : f.load p i = some e) : f'.load p i = some e := by
  rw [load_appendPage h, if_neg, he]
  rintro ⟨rfl, rfl⟩
  rw [load_none_of_appendPage h] at he
  cases he

theorem pageIndex_appendPage (h : f.appendPage partitionId pageId bytes = some (f', seq)) (i : Nat) :
    f'.pageIndex i =
      if i = pageId then (f.pageIndex i).orElse fun _ => some (partitionId, seq)
      else f.pageIndex i := by
  obtain ⟨pages, hp, he⟩ := Option.map_eq_some_iff.mp h
  obtain ⟨rfl, rfl⟩ := Prod.mk.inj he
  rfl

/-- the page can be found -/
def Has (f : DataFile C) (pageId : Nat) : Prop := (f.pageIndex pageId).isSome = true

theorem Has.appendPage {i : Nat} (hi : f.Has i)
    (h : f.appendPage partitionId pageId bytes = some (f', seq)) : f'.Has i := by
  unfold Has
  rw [pageIndex_appendPage h]
  split
  · obtain ⟨place, hp⟩ := Option.isSome_iff_exists.mp hi
    rw [hp]
    rfl
  · exact hi

theorem has_appendPage (h : f.appendPage partitionId pageId bytes = some (f', seq)) :
    f'.Has pageId := by
  unfold Has
  rw [pageIndex_appendPage h, if_pos rfl]
  cases f.pageIndex pageId <;> rfl

/-- the index leads to pages with the id, and knows the id of each page -/
structure Indexed (f : DataFile C) : Prop where
  load : ∀ pageId place, f.pageIndex pageId = some place →
    ∃ bytes, f.load place.1 place.2 = some (pageId, bytes)
  has : ∀ p i pageId bytes, f.load p i = some (pageId, bytes) → f.Has pageId

theorem Indexed.appendPage (hf : f.Indexed)
    (h : f.appendPage partitionId pageId bytes = some (f', seq)) : f'.Indexed := by
  constructor
  · intro i place hi
    rw [pageIndex_appendPage h] at hi
    split at hi
    · next hid =>
      subst hid
      cases hold : f.pageIndex i with
      | some place' =>
        rw [hold] at hi
        obtain rfl : place' = place := Option.some.inj hi
        obtain ⟨c, hc⟩ := hf.load i place' hold
        exact ⟨c, load_mono h hc⟩
      | none =>
        rw [hold] at hi
        obtain rfl : (partitionId, seq) = place := Option.some.inj hi
        exact ⟨bytes, by rw [load_appendPage h, if_pos ⟨rfl, rfl⟩]⟩
    · obtain ⟨c, hc⟩ := hf.load i place hi
      exact ⟨c, load_mono h hc⟩
  · intro p i id c hload
    rw [load_appendPage h] at hload
    split at hload
    · obtain ⟨rfl, -⟩ := Prod.mk.inj (Option.some.inj hload)
      exact has_appendPage h
    · exact (hf.has p i id c hload).appendPage h

end DataFile

/-! ## The way to the file -/

namespace PangeaStorageServer
variable {C : Type*}

/-- how far a consumer is with a page -/
def held (page : Nat) : Option (Nat × FlushStage) → Option FlushStage
  | some (p, stage) => if p = page then some stage else none
  | none => none

@[simp] theorem held_none (page : Nat) : held page none = none := rfl

@[simp] theorem held_self (page : Nat) (stage : FlushStage) :
    held page (some (page, stage)) = some stage := if_pos rfl

theorem held_of_ne {page p : Nat} (h : p ≠ page) (stage : FlushStage) :
    held page (some (p, stage)) = none := if_neg h

/-- where a page is on its way to the file; `none` in the flush buffer -/
def flight (s : PangeaStorageServer C) (page : Nat) : List (Option FlushStage) :=
  (s.flushBuffer.filter (· = page)).map (fun _ => none) ++
    (s.flushConsumers.filterMap (held page)).map some

variable {s : PangeaStorageServer C} {page p partitionId : Nat} {c : Option (Nat × FlushStage)}

theorem flight_setConsumer_of_ne (hc : s.flushConsumers[partitionId]? = some c)
    (h : held page c = none) {c' : Option (Nat × FlushStage)} (h' : held page c' = none) :
    (s.setConsumer partitionId c').flight page = s.flight page := by
  obtain ⟨hlt, hget⟩ := List.getElem?_eq_some_iff.mp hc
  obtain ⟨l₁, l₂, hl, -, hset⟩ := @List.exists_of_set _ _ c' _ hlt
  rw [hget] at hl
  unfold flight setConsumer
  dsimp only
  rw [hset, hl, List.filterMap_append, List.filterMap_append, List.filterMap_cons_none h,
    List.filterMap_cons_none h']

theorem updatePage_pages {q : PDBPage C} (hp : s.pages[page]? = some q) (f : PDBPage C → PDBPage C) :
    (s.updatePage page f).pages = s.pages.set page (f q) := by
  apply List.ext_getElem?
  intro i
  rw [updatePage, List.getElem?_modify, List.getElem?_set]
  by_cases hi : page = i
  · subst hi
    obtain ⟨hlt, -⟩ := List.getElem?_eq_some_iff.mp hp
    rw [if_pos rfl, if_pos hlt, hp]
    simp
  · simp [hi]

theorem pages_set_self {q : PDBPage C} (hp : s.pages[page]? = some q) : s.pages = s.pages.set page q := by
  obtain ⟨hlt, rfl⟩ := List.getElem?_eq_some_iff.mp hp
  exact (List.set_getElem_self hlt).symm

/-- a consumer has a page that is on its way -/
theorem flight_ne_of_consumer {stage : FlushStage}
    (hc : s.flushConsumers[partitionId]? = some (some (page, stage))) : s.flight page ≠ [] := by
  intro h
  obtain ⟨-, hh⟩ := List.append_eq_nil_iff.mp h
  have hmem := List.mem_filterMap.mpr ⟨_, List.mem_of_getElem? hc, held_self page stage⟩
  rw [List.map_eq_nil_iff.mp hh] at hmem
  cases hmem

/-- a page in the hands of a consumer is nowhere else -/
theorem flight_setConsumer {stage : FlushStage} {f : Option FlushStage}
    (hc : s.flushConsumers[partitionId]? = some (some (page, stage))) (hf : s.flight page = [f])
    (c' : Option (Nat × FlushStage)) :
    f = some stage ∧ (s.setConsumer partitionId c').flight page = ((held page c').map some).toList := by
  obtain ⟨hlt, hget⟩ := List.getElem?_eq_some_iff.mp hc
  obtain ⟨l₁, l₂, hl, -, hset⟩ := @List.exists_of_set _ _ c' _ hlt
  rw [hget] at hl
  unfold flight at hf
  rw [hl, List.filterMap_append, List.filterMap_cons_some (held_self page stage)] at hf
  unfold flight setConsumer
  dsimp only
  rw [hset, List.filterMap_append]
  have hlen := congrArg List.length hf
  simp only [List.length_append, List.length_map, List.length_cons, List.length_nil] at hlen
  have hb : s.flushBuffer.filter (· = page) = [] := List.length_eq_zero_iff.mp (by omega)
  have h₁ : l₁.filterMap (held page) = [] := List.length_eq_zero_iff.mp (by omega)
  have h₂ : l₂.filterMap (held page) = [] := List.length_eq_zero_iff.mp (by omega)
  rw [hb, h₁, h₂] at hf
  rw [hb, h₁, List.filterMap_cons]
  refine ⟨(List.cons.inj hf).1.symm, ?_⟩
  cases held page c' with
  | none => simp [h₂]
  | some stage' => simp [h₂]

/-- the head of the buffer is given to an idle consumer -/
theorem flight_pop_of_ne {rest : List Nat} (hb : s.flushBuffer = p :: rest)
    (hc : s.flushConsumers[partitionId]? = some none) (hne : p ≠ page) :
    ({ s with flushBuffer := rest }.setConsumer partitionId (some (p, .popped))).flight page =
      s.flight page := by
  have hs : { s with flushBuffer := rest }.flight page = s.flight page := by
    unfold flight
    dsimp only
    rw [hb, List.filter_cons_of_neg (by simpa using hne)]
  rw [← hs]
  exact flight_setConsumer_of_ne (s := { s with flushBuffer := rest }) hc rfl (held_of_ne hne _)

theorem flight_pop {rest : List Nat} (hb : s.flushBuffer = page :: rest)
    (hc : s.flushConsumers[partitionId]? = some none) {f : Option FlushStage}
    (hf : s.flight page = [f]) :
    f = none ∧ ({ s with flushBuffer := rest }.setConsumer partitionId
      (some (page, .popped))).flight page = [some .popped] := by
  obtain ⟨hlt, hget⟩ := List.getElem?_eq_some_iff.mp hc
  obtain ⟨l₁, l₂, hl, -, hset⟩ := @List.exists_of_set _ _ (some (page, FlushStage.popped)) _ hlt
  rw [hget] at hl
  unfold flight at hf
  rw [hl, hb, List.filter_cons_of_pos (by simp), List.map_cons, List.cons_append] at hf
  obtain ⟨hf₁, hf₂⟩ := List.cons.inj hf
  obtain ⟨hr, hh⟩ := List.append_eq_nil_iff.mp hf₂
  rw [List.filterMap_append, List.filterMap_cons_none (held_none page), List.map_eq_nil_iff,
    List.append_eq_nil_iff] at hh
  refine ⟨hf₁.symm, ?_⟩
  unfold flight setConsumer
  dsimp only
  rw [hr, hset, List.filterMap_append, List.filterMap_cons_some (held_self page _), hh.1, hh.2]
  rfl

/-- a page is put at the end of the buffer -/
theorem flight_push (s : PangeaStorageServer C) (p page : Nat) (hc : s.flight page = []) :
    { s with flushBuffer := s.flushBuffer ++ [p] }.flight page =
      if p = page then [none] else [] := by
  obtain ⟨hb, hh⟩ := List.append_eq_nil_iff.mp hc
  unfold flight
  dsimp only
  rw [hh, List.append_nil, List.filter_append, List.map_append, hb, List.nil_append,
    List.filter_singleton]
  by_cases hp : p = page
  · simp [hp]
  · simp [hp]

theorem flight_push_of_ne (s : PangeaStorageServer C) (hne : p ≠ page) :
    { s with flushBuffer := s.flushBuffer ++ [p] }.flight page = s.flight page := by
  unfold flight
  dsimp only
  rw [List.filter_append, List.filter_singleton, decide_eq_false hne, cond_false, List.append_nil]

/-- as long as the lock is free, no consumer has begun to write -/
theorem flight_of_unlocked (h : s.unlocked = true) {stage : FlushStage}
    (hf : some stage ∈ s.flight page) : stage = .popped := by
  rcases List.mem_append.mp hf with hf | hf
  · obtain ⟨_, _, he⟩ := List.mem_map.mp hf
    cases he
  · obtain ⟨_, hm, he⟩ := List.mem_map.mp hf
    cases he
    obtain ⟨c, hc, hh⟩ := List.mem_filterMap.mp hm
    have hl := List.all_eq_true.mp h c hc
    match c, hh with
    | some (p, stage'), hh =>
      by_cases hp : p = page
      · rw [held, if_pos hp] at hh
        obtain rfl := Option.some.inj hh
        cases stage' with
        | popped => rfl
        | _ => cases hl
      · rw [held_of_ne hp] at hh
        cases hh

/-! ## One page -/

/-- the file of its set has the page -/
def Stored (s : PangeaStorageServer C) (key : CacheKey) : Prop :=
  ∃ u, s.sets key.toSetKey = some u ∧ u.file.Has key.pageId

/-- the table of dirty pages of its set has the page -/
def Listed (s : PangeaStorageServer C) (key : CacheKey) : Prop :=
  ∃ u k, s.sets key.toSetKey = some u ∧ (key.pageId, k) ∈ u.dirtyPagesInPageCache ∧
    k.inCache = true

/-- the table has an entry of the page, flushed or not -/
def Entered (s : PangeaStorageServer C) (key : CacheKey) : Prop :=
  ∃ u k, s.sets key.toSetKey = some u ∧ (key.pageId, k) ∈ u.dirtyPagesInPageCache

end PangeaStorageServer

/-- all that the steps of a server look at in a page; `last` is what was last written to it -/
structure PageView (C : Type*) where
  page : PDBPage C
  last : Option C
  cached : Prop
  flight : List (Option FlushStage)
  evicting : Nat
  listed : Prop
  entered : Prop
  stored : Prop

/-- queued or popped at most: not appended yet -/
def Waiting (flight : List (Option FlushStage)) : Prop :=
  flight = [] ∨ flight = [none] ∨ flight = [some .popped]

/-- **The invariant of a page.** -/
structure PageOk {C : Type*} (v : PageView C) : Prop where
  last : ∃ bytes, v.last = some bytes
  bytes : ∀ bytes, v.page.rawBytes = some bytes → v.last = some bytes
  pinned : 0 < v.page.refCount → v.page.rawBytes ≠ none
  pins : v.page.writer ≠ .unpinned → 0 < v.page.refCount
  writing : v.page.writer ≠ .unpinned → v.page.dirty = true ∧ v.page.inFlush = false
  idle : v.page.inFlush = false → v.flight = []
  busy : v.page.inFlush = true →
    (∃ f, v.flight = [f]) ∧ v.page.dirty = true ∧ v.page.key.isFlushed = true
  adding : v.page.writer = .adding → ¬ v.entered
  once : v.evicting ≤ 1
  evicting : 0 < v.evicting → v.page.refCount = 0 ∧ v.page.inFlush = false ∧
    v.page.rawBytes ≠ none ∧ v.cached ∧ (v.page.key.isFlushed = true → v.page.dirty = false)
  cached : v.page.key.isFlushed = true → v.page.dirty = true → v.cached
  freed : v.cached → v.page.rawBytes = none →
    v.flight = [some .freed] ∧ v.page.refCount = 0 ∧ v.page.inEviction = true
  clean : v.page.key.isFlushed = true → v.page.dirty = false → v.stored
  waiting : v.page.key.isFlushed = true → v.page.dirty = true → Waiting v.flight →
    v.page.rawBytes ≠ none ∧ (v.page.writer = .adding ∨ v.listed)
  flushed : ∀ stage, v.flight = [some stage] → stage ≠ .popped → v.stored

/-- what the steps of other pages may change -/
structure PageView.Le {C : Type*} (v v' : PageView C) : Prop where
  page : v'.page = v.page
  last : v'.last = v.last
  cached : v'.cached ↔ v.cached
  flight : v'.flight = v.flight
  evicting : v'.evicting = v.evicting
  listed : v.page.key.isFlushed = true → v.page.dirty = true → v.listed → v'.listed
  entered : v'.entered → v.entered
  stored : v.stored → v'.stored

theorem PageOk.mono {C : Type*} {v v' : PageView C} (h : PageOk v) (hv : v.Le v') : PageOk v' := by
  obtain ⟨hpage, hlast, hcached, hflight, hevicting, hlisted, hentered, hstored⟩ := hv
  constructor
  · rw [hlast]
    exact h.last
  · rw [hpage, hlast]
    exact h.bytes
  · rw [hpage]
    exact h.pinned
  · rw [hpage]
    exact h.pins
  · rw [hpage]
    exact h.writing
  · rw [hpage, hflight]
    exact h.idle
  · rw [hpage, hflight]
    exact h.busy
  · rw [hpage]
    exact fun hw he => h.adding hw (hentered he)
  · rw [hevicting]
    exact h.once
  · rw [hevicting, hpage]
    intro he
    obtain ⟨h₁, h₂, h₃, h₄, h₅⟩ := h.evicting he
    exact ⟨h₁, h₂, h₃, hcached.mpr h₄, h₅⟩
  · rw [hpage]
    exact fun hk hd => hcached.mpr (h.cached hk hd)
  · rw [hpage, hflight]
    exact fun hc hb => h.freed (hcached.mp hc) hb
  · rw [hpage]
    exact fun hk hd => hstored (h.clean hk hd)
  · rw [hpage, hflight]
    intro hk hd hw
    obtain ⟨hb, hl⟩ := h.waiting hk hd hw
    exact ⟨hb, hl.imp_right (hlisted hk hd)⟩
  · rw [hflight]
    exact fun stage hf hs => hstored (h.flushed stage hf hs)

namespace PangeaStorageServer
variable {C : Type*}

/-- a page of a server -/
def view (s : PangeaStorageServer C) (last : CacheKey → Option C) (page : Nat) (p : PDBPage C) :
    PageView C :=
  { page := p, last := last p.key, cached := s.cache p.key = some page, flight := s.flight page
    evicting := s.evicting.count page, listed := s.Listed p.key, entered := s.Entered p.key
    stored := s.Stored p.key }

end PangeaStorageServer
end Netsdb
