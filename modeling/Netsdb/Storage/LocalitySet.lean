import Netsdb.Storage.CacheSize

/-!
# The pages that a locality set counts (`LocalitySet.cc`, `PageCache.cc`)

* `getPage`, `getNewPage`, `evictForDBMIN`   what is done for the readers and writers of a set;
* `Leaving`          a page that a flush consumer is going to free;
* `Booked`           the list of a set has the pages of the cache that are not leaving;
* `booked_of_reach`  runs in which no page is hit while it leaves, and each is added and evicted with
                     its set.
-/

set_option linter.unusedSectionVars false

namespace Netsdb
namespace Accounting
open Machine Table

namespace PageCache

def incRefCount (s : PageCache) (page : Nat) : PageCache :=
  s.updatePage page fun p => { p with refCount := p.refCount + 1 }

def updateCachedPage (s : PageCache) (set : Option SetKey) (page : Nat) : PageCache :=
  match set with
  | some set => s.updateSet set fun u => u.updateCachedPage page
  | none => s

/-- the set of the page, or `nullptr` -/
def setOf (key : CacheKey) (withSet : Bool) : Option SetKey :=
  if withSet then some key.toSetKey else none

/-- the page is pinned and put at the end of its set -/
def hit (s : PageCache) (page : Nat) (set : Option SetKey) : PageCache :=
  (s.incRefCount page).updateCachedPage set page

/-- the page is built, added to the cache and pinned -/
def addPage (s : PageCache) (key : CacheKey) (size : UInt64) (dirty : Bool) (set : Option SetKey) :
    Option PageCache :=
  (s.buildPage key size dirty).bind fun r =>
    (r.1.cachePage r.2 set).map fun s => s.incRefCount r.2

/-- `loaded` is what is in the file: the id of the page is read from its bytes -/
def getPage (s : PageCache) (key : CacheKey) (withSet : Bool) (loaded : Option (Nat × UInt64)) :
    Option PageCache :=
  match s.cache.lookup key with
  | some page => some (s.hit page (setOf key withSet))
  | none =>
    match loaded with
    | none => some s
    | some (pageId, size) => s.addPage { key with pageId } size false (setOf key withSet)

/-- `getPage` of a key, which does not load -/
def getPage1 (s : PageCache) (key : CacheKey) (withSet : Bool) : PageCache :=
  match s.cache.lookup key with
  | some page => s.hit page (setOf key withSet)
  | none => s

def getNewPage (s : PageCache) (key : CacheKey) (size : UInt64) : Option PageCache :=
  match s.cache.lookup key with
  | some _ => some s
  | none => s.addPage key size true (some key.toSetKey)

def selectPageForReplacement (s : PageCache) (set : SetKey) : Option Nat :=
  let u := s.sets set
  (if u.replacementPolicy = .mru then u.cachedPages.reverse else u.cachedPages).find?
    fun page => decide (∀ p ∈ s.pages[page]?, p.refCount = 0)

/-- one round of the loop; the count is converted to a `size_t` -/
def evictForDBMIN (s : PageCache) (set : SetKey) : Option PageCache :=
  if (s.sets set).desiredSize ≤ UInt64.ofInt (s.sets set).numCachedPages then
    match s.selectPageForReplacement set with
    | some page => s.evictPageOf page (some set)
    | none => some s
  else some s

end PageCache

inductive LocalityOp
  | getPage (key : CacheKey) (withSet : Bool) (loaded : Option (Nat × UInt64))
  | getPage1 (key : CacheKey) (withSet : Bool)
  | getNewPage (key : CacheKey) (size : UInt64)
  | decRefCount (page : Nat)
  | evictPageOf (key : CacheKey) (page : Nat) (withSet : Bool)
  | evictPage (key : CacheKey) (tryFlushOrNot : Bool)
  | evictForDBMIN (set : SetKey)
  | flushPageWithoutEviction (key : CacheKey)
  | flushed (page : Nat)

namespace PageCache

/-- `evictPageOf` is given the key of its page -/
def localityStep (s : PageCache) : LocalityOp → Option PageCache
  | .getPage key withSet loaded => s.getPage key withSet loaded
  | .getPage1 key withSet => some (s.getPage1 key withSet)
  | .getNewPage key size => s.getNewPage key size
  | .decRefCount page => some (s.updatePage page fun p => { p with refCount := p.refCount - 1 })
  | .evictPageOf key page withSet =>
    if (s.pages[page]?).map PDBPage.key = some key then s.evictPageOf page (setOf key withSet)
    else none
  | .evictPage key tryFlushOrNot => (s.evictPage key tryFlushOrNot).map Prod.fst
  | .evictForDBMIN set => s.evictForDBMIN set
  | .flushPageWithoutEviction key => s.flushPageWithoutEviction key
  | .flushed page => s.flushed page

/-- evicted, but not yet flushed -/
def Leaving (s : PageCache) (page : Nat) : Prop :=
  ∃ p ∈ s.pages[page]?, p.inFlush = true ∧ p.inEviction = true

/-- some reader or writer has the page -/
def InUse (s : PageCache) (page : Nat) : Prop := ∀ p ∈ s.pages[page]?, 0 < p.refCount

instance (s : PageCache) (page : Nat) : Decidable (s.Leaving page) :=
  decidable_of_iff ((s.pages[page]?).any fun p => p.inFlush && p.inEviction) (by
    cases h : s.pages[page]? <;> simp [Leaving, h])

instance (s : PageCache) (page : Nat) : Decidable (s.InUse page) :=
  inferInstanceAs (Decidable (∀ p ∈ s.pages[page]?, 0 < p.refCount))

/-- the condition on a step: a page that leaves is not hit; a page is loaded with its set, when the
cache has no page of that key; a page that is not in use is evicted only with its set, once, unless
the set itself has chosen it -/
def Proper (s : PageCache) : LocalityOp → Prop
  | .getPage key withSet loaded =>
    (∀ page ∈ s.cache.lookup key, ¬ s.Leaving page) ∧
      (s.cache.lookup key = none → ∀ l ∈ loaded,
        withSet = true ∧ s.cache.lookup { key with pageId := l.1 } = none)
  | .getPage1 key _ => ∀ page ∈ s.cache.lookup key, ¬ s.Leaving page
  | .evictPageOf key page withSet => ∀ q ∈ s.cache.lookup key,
    s.InUse q ∨ (withSet = true ∧ q = page ∧ ¬ s.Leaving q)
  | .evictPage key _ => ∀ page ∈ s.cache.lookup key, s.InUse page
  | _ => True

instance (s : PageCache) : (op : LocalityOp) → Decidable (Proper s op)
  | .getPage key withSet loaded => inferInstanceAs (Decidable
      ((∀ page ∈ s.cache.lookup key, ¬ s.Leaving page) ∧
        (s.cache.lookup key = none → ∀ l ∈ loaded,
          withSet = true ∧ s.cache.lookup { key with pageId := l.1 } = none)))
  | .getPage1 key _ => inferInstanceAs (Decidable (∀ page ∈ s.cache.lookup key, ¬ s.Leaving page))
  | .evictPageOf key page withSet => inferInstanceAs (Decidable
      (∀ q ∈ s.cache.lookup key, s.InUse q ∨ (withSet = true ∧ q = page ∧ ¬ s.Leaving q)))
  | .evictPage key _ => inferInstanceAs (Decidable (∀ page ∈ s.cache.lookup key, s.InUse page))
  | .getNewPage _ _ | .decRefCount _ | .evictForDBMIN _ | .flushPageWithoutEviction _
  | .flushed _ => inferInstanceAs (Decidable True)

/-- the pages of a set that are in the cache -/
def InCache (s : PageCache) (set : SetKey) (page : Nat) : Prop :=
  ∃ key : CacheKey, key.toSetKey = set ∧ s.cache.lookup key = some page

/-- a set counts the pages in its list, which has no page twice -/
def Counted (s : PageCache) : Prop := ∀ set,
  (s.sets set).numCachedPages = (s.sets set).cachedPages.length ∧ (s.sets set).cachedPages.Nodup

/-- the list of a set has exactly its pages that are in the cache -/
def Listed (s : PageCache) : Prop := ∀ set page,
  page ∈ (s.sets set).cachedPages ↔ s.InCache set page

/-! ## The cache and the flush buffer -/

/-- a page of the flush buffer is in flush, and is the page of its key; a page that leaves is not in
use -/
structure Flushing (s : PageCache) : Prop where
  keyed : Keyed s.cache
  entry : ∀ key page, s.cache.lookup key = some page → ∃ p, s.pages[page]? = some p ∧ p.key = key
  buffer : ∀ page ∈ s.flushBuffer, ∃ p, s.pages[page]? = some p ∧ p.inFlush = true ∧
    s.cache.lookup p.key = some page
  once : s.flushBuffer.Nodup
  idle : ∀ (page : Nat) (p : PDBPage), s.pages[page]? = some p → p.inFlush = true → p.inEviction = true →
    p.refCount = 0

/-- the pages that the list of a set should have -/
def Stays (s : PageCache) (set : SetKey) (page : Nat) : Prop :=
  s.InCache set page ∧ ¬ s.Leaving page

structure Booked (s : PageCache) : Prop extends Flushing s where
  strategy : s.strategy = .unifiedDBMIN
  counted : Counted s
  listed : ∀ set page, page ∈ (s.sets set).cachedPages ↔ s.Stays set page

variable {s s' : PageCache} {page : Nat} {key : CacheKey} {set : SetKey} {f : PDBPage → PDBPage}

theorem getElem?_updatePage (s : PageCache) (page i : Nat) (f : PDBPage → PDBPage) :
    (s.updatePage page f).pages[i]? = if page = i then (s.pages[i]?).map f else s.pages[i]? := by
  by_cases hi : page = i
  · subst hi
    rw [if_pos rfl]
    exact List.getElem?_modify_eq f page s.pages
  · rw [if_neg hi]
    exact List.getElem?_modify_ne _ _ hi

theorem leaving_iff {p : PDBPage} (hp : s.pages[page]? = some p) :
    s.Leaving page ↔ p.inFlush = true ∧ p.inEviction = true := by
  unfold Leaving
  rw [hp]
  exact ⟨fun ⟨q, hq, h⟩ => by rw [Option.some.inj hq]; exact h, fun h => ⟨p, rfl, h⟩⟩

theorem leaving_congr (h : s'.pages[page]? = s.pages[page]?) : s'.Leaving page ↔ s.Leaving page := by
  unfold Leaving
  rw [h]

/-- the page of a key is in the set of the key only -/
theorem Flushing.inCache_iff (h : Flushing s) {p : PDBPage} (hp : s.pages[page]? = some p) :
    s.InCache set page ↔ p.key.toSetKey = set ∧ s.cache.lookup p.key = some page := by
  constructor
  · rintro ⟨key, hset, hl⟩
    obtain ⟨q, hq, rfl⟩ := h.entry key page hl
    obtain rfl := Option.some.inj (hp.symm.trans hq)
    exact ⟨hset, hl⟩
  · exact fun hc => ⟨p.key, hc⟩

/-- **A page of the cache is changed.** -/
theorem Flushing.updatePage (h : Flushing s) (hkey : ∀ p, (f p).key = p.key)
    (hflush : ∀ p, s.pages[page]? = some p → page ∈ s.flushBuffer → (f p).inFlush = true)
    (hidle : ∀ p, s.pages[page]? = some p → (f p).inFlush = true → (f p).inEviction = true →
      (f p).refCount = 0) : Flushing (s.updatePage page f) := by
  have hpages := getElem?_updatePage s page
  refine ⟨h.keyed, fun key i hl => ?_, fun i hi => ?_, h.once, fun i p hp => ?_⟩
  · obtain ⟨p, hp, hk⟩ := h.entry key i hl
    rw [hpages]
    by_cases he : page = i
    · rw [if_pos he, hp]
      exact ⟨f p, rfl, (hkey p).trans hk⟩
    · rw [if_neg he]
      exact ⟨p, hp, hk⟩
  · obtain ⟨p, hp, hf, hl⟩ := h.buffer i hi
    rw [hpages]
    by_cases he : page = i
    · subst he
      rw [if_pos rfl, hp]
      exact ⟨f p, rfl, hflush p hp hi, by rw [hkey]; exact hl⟩
    · rw [if_neg he]
      exact ⟨p, hp, hf, hl⟩
  · rw [hpages] at hp
    by_cases he : page = i
    · subst he
      rw [if_pos rfl] at hp
      obtain ⟨q, hq, rfl⟩ := Option.map_eq_some_iff.mp hp
      exact hidle q hq
    · rw [if_neg he] at hp
      exact h.idle i p hp

theorem Flushing.congr (h : Flushing s) (hpages : s'.pages = s.pages) (hcache : s'.cache = s.cache)
    (hbuffer : s'.flushBuffer = s.flushBuffer) : Flushing s' := by
  obtain ⟨hkeyed, hentry, hbuf, honce, hidle⟩ := h
  refine ⟨?_, ?_, ?_, ?_, ?_⟩
  · rw [hcache]; exact hkeyed
  · rw [hcache, hpages]; exact hentry
  · rw [hbuffer, hcache, hpages]; exact hbuf
  · rw [hbuffer]; exact honce
  · rw [hpages]; exact hidle

/-- a page that is in flush is put at the end of the buffer -/
theorem Flushing.push (h : Flushing s) {p : PDBPage} (hp : s.pages[page]? = some p)
    (hflush : p.inFlush = true) (hl : s.cache.lookup p.key = some page)
    (hnot : page ∉ s.flushBuffer) :
    Flushing { s with flushBuffer := s.flushBuffer ++ [page] } := by
  refine ⟨h.keyed, h.entry, fun i hi => ?_, ?_, h.idle⟩
  · rcases List.mem_append.mp hi with hi | hi
    · exact h.buffer i hi
    · rw [List.mem_singleton.mp hi]
      exact ⟨p, hp, hflush, hl⟩
  · refine List.nodup_append.mpr ⟨h.once, List.nodup_singleton page, fun i hi j hj => ?_⟩
    rw [List.mem_singleton.mp hj]
    rintro rfl
    exact hnot hi

/-- a page that is not in the buffer leaves the table -/
theorem Flushing.removePage (h : Flushing s)
    (hnot : ∀ page, s.cache.lookup key = some page → page ∉ s.flushBuffer) :
    Flushing (s.removePage key) := by
  unfold PageCache.removePage
  cases hl : s.cache.lookup key with
  | none => exact h
  | some page =>
    refine ⟨h.keyed.without key, fun key' i hl' => ?_, fun i hi => ?_, h.once, h.idle⟩
    · change (without s.cache key).lookup key' = some i at hl'
      rw [lookup_without] at hl'
      split_ifs at hl'
      exact h.entry key' i hl'
    · obtain ⟨p, hp, hflush, hcached⟩ := h.buffer i hi
      refine ⟨p, hp, hflush, ?_⟩
      show (without s.cache key).lookup p.key = some i
      rw [lookup_without, if_neg, hcached]
      intro heq
      rw [heq] at hcached
      exact hnot i hcached hi

theorem lookup_removePage (s : PageCache) (key key' : CacheKey) :
    (s.removePage key).cache.lookup key' =
      if key' = key then none else s.cache.lookup key' := by
  unfold PageCache.removePage
  cases hl : s.cache.lookup key with
  | none =>
    dsimp only
    split_ifs with heq
    · rw [heq, hl]
    · rfl
  | some page => exact lookup_without _ _ _

/-! ## One page of a set -/

theorem leaving_updatePage (hf : ∀ p, (f p).inFlush = p.inFlush ∧ (f p).inEviction = p.inEviction)
    (i : Nat) : (s.updatePage page f).Leaving i ↔ s.Leaving i := by
  unfold Leaving
  rw [getElem?_updatePage]
  split_ifs
  · cases s.pages[i]? with
    | none => exact ⟨fun ⟨p, hp, _⟩ => absurd hp (Option.not_mem_none p),
        fun ⟨p, hp, _⟩ => absurd hp (Option.not_mem_none p)⟩
    | some q =>
      obtain ⟨hflush, hevict⟩ := hf q
      constructor
      · rintro ⟨p, hp, h⟩
        obtain rfl := Option.some.inj hp
        rw [hflush, hevict] at h
        exact ⟨q, rfl, h⟩
      · rintro ⟨p, hp, h⟩
        obtain rfl := Option.some.inj hp
        exact ⟨f q, rfl, by rw [hflush, hevict]; exact h⟩
  · rfl

/-- no page begins to leave or to stay -/
theorem Booked.congr (h : Booked s) (hf : Flushing s') (hstrategy : s'.strategy = s.strategy)
    (hsets : s'.sets = s.sets) (hstays : ∀ set page, s'.Stays set page ↔ s.Stays set page) :
    Booked s' := by
  refine ⟨hf, hstrategy.trans h.strategy, fun set => ?_, fun set page => ?_⟩
  · rw [hsets]
    exact h.counted set
  · rw [hsets, hstays]
    exact h.listed set page

theorem length_erase_append {l : List Nat} (hm : page ∈ l) :
    (l.erase page ++ [page]).length = l.length := by
  rw [List.length_append, List.length_erase_of_mem hm, List.length_singleton]
  have := List.length_pos_of_mem hm
  omega

/-- a page of the list is put at its end -/
theorem Booked.touch (h : Booked s) (hm : page ∈ (s.sets set).cachedPages) :
    Booked (s.updateSet set fun u => u.updateCachedPage page) := by
  have hf : Flushing (s.updateSet set fun u => u.updateCachedPage page) :=
    h.toFlushing.congr rfl rfl rfl
  have hnodup := (h.counted set).2
  refine ⟨hf, h.strategy, fun set' => ?_, fun set' i => ?_⟩
  · by_cases heq : set' = set
    · subst heq
      unfold updateSet
      dsimp only
      rw [Function.update_self]
      refine ⟨?_, List.nodup_append.mpr ⟨hnodup.erase page, List.nodup_singleton page, ?_⟩⟩
      · show (s.sets set').numCachedPages =
          (((s.sets set').cachedPages.erase page ++ [page]).length : Nat)
        rw [length_erase_append hm]
        exact (h.counted set').1
      · intro i hi j hj
        rw [List.mem_singleton.mp hj]
        exact (hnodup.mem_erase_iff.mp hi).1
    · unfold updateSet
      dsimp only
      rw [Function.update_of_ne heq]
      exact h.counted set'
  · change _ ↔ s.Stays set' i
    rw [← h.listed]
    by_cases heq : set' = set
    · subst heq
      unfold updateSet
      dsimp only
      rw [Function.update_self]
      show i ∈ (s.sets set').cachedPages.erase page ++ [page] ↔ _
      rw [List.mem_append, hnodup.mem_erase_iff, List.mem_singleton]
      constructor
      · rintro (hi | rfl)
        · exact hi.2
        · exact hm
      · intro hi
        by_cases he : i = page
        · exact .inr he
        · exact .inl ⟨he, hi⟩
    · unfold updateSet
      dsimp only
      rw [Function.update_of_ne heq]

/-- **A hit.** -/
theorem Booked.hit (h : Booked s) (hl : s.cache.lookup key = some page) (hstay : ¬ s.Leaving page)
    (withSet : Bool) : Booked (s.hit page (setOf key withSet)) := by
  have hpinned : Booked (s.incRefCount page) := by
    refine h.congr (h.toFlushing.updatePage (fun _ => rfl) (fun p hp hin => ?_)
      fun p hp hflush hevict => ?_) rfl rfl fun set i => ?_
    · obtain ⟨q, hq, hflush, -⟩ := h.buffer page hin
      rw [Option.some.inj (hp.symm.trans hq)]
      exact hflush
    · exact absurd ((leaving_iff hp).mpr ⟨hflush, hevict⟩) hstay
    · exact and_congr Iff.rfl (not_congr (leaving_updatePage
        (f := fun p => { p with refCount := p.refCount + 1 }) (fun _ => ⟨rfl, rfl⟩) i))
  unfold PageCache.hit setOf
  cases withSet with
  | false => exact hpinned
  | true =>
    refine hpinned.touch ?_
    exact (h.listed _ _).mpr ⟨⟨key, rfl, hl⟩, hstay⟩

/-- what is in the cache when a page was added with its set -/
structure Added (s s' : PageCache) (key : CacheKey) : Prop where
  pages : ∃ p : PDBPage, s'.pages = s.pages ++ [p] ∧ p.key = key ∧ p.inFlush = false
  cache : s'.cache = (key, s.pages.length) :: s.cache
  flushBuffer : s'.flushBuffer = s.flushBuffer
  strategy : s'.strategy = s.strategy
  sets : s'.sets = Function.update s.sets key.toSetKey
    { s.sets key.toSetKey with
      cachedPages := (s.sets key.toSetKey).cachedPages ++ [s.pages.length]
      numCachedPages := (s.sets key.toSetKey).numCachedPages + 1 }

theorem sets_updateSet_updateSet (s : PageCache) (set : SetKey) (f g : LocalitySet → LocalitySet) :
    ((s.updateSet set f).updateSet set g).sets = Function.update s.sets set (g (f (s.sets set))) := by
  unfold updateSet
  dsimp only
  rw [Function.update_idem, Function.update_self]

theorem modify_concat (l : List PDBPage) (p : PDBPage) (f : PDBPage → PDBPage) :
    (l ++ [p]).modify l.length f = l ++ [f p] := by
  induction l with
  | nil => rfl
  | cons q l ih =>
    show q :: (l ++ [p]).modify l.length f = _
    rw [ih]
    rfl

theorem addPage_spec {size : UInt64} {dirty : Bool} (hdbmin : s.strategy = .unifiedDBMIN)
    (hl : s.cache.lookup key = none)
    (hs : s.addPage key size dirty (some key.toSetKey) = some s') : Added s s' key := by
  obtain ⟨r, hr, hs⟩ := Option.bind_eq_some_iff.mp hs
  obtain ⟨⟨shm, ptr⟩, -, rfl⟩ := Option.map_eq_some_iff.mp hr
  obtain ⟨t, ht, rfl⟩ := Option.map_eq_some_iff.mp hs
  unfold cachePage at ht
  dsimp only at ht
  rw [List.getElem?_concat_length, Option.map_some] at ht
  have hkey : (PDBPage.new key size ptr dirty).key = key := rfl
  rw [hkey, hl, if_pos (by rfl)] at ht
  obtain rfl := Option.some.inj ht
  have hcount : ∀ t : PageCache, t.strategy = .unifiedDBMIN → t.countCached (some key.toSetKey) 1 =
      t.updateSet key.toSetKey fun u => u.setNumCachedPages (u.numCachedPages + 1) :=
    fun t ht => if_pos ht
  rw [hcount _ (by exact hdbmin)]
  refine ⟨⟨{ PDBPage.new key size ptr dirty with refCount := 1 }, ?_, rfl, rfl⟩, rfl, rfl, rfl, ?_⟩
  · exact modify_concat s.pages (PDBPage.new key size ptr dirty)
      fun p => { p with refCount := p.refCount + 1 }
  · exact sets_updateSet_updateSet s key.toSetKey
      (fun u => u.setNumCachedPages (u.numCachedPages + 1)) fun u => u.addCachedPage s.pages.length

theorem Flushing.lt (h : Flushing s) (hl : s.cache.lookup key = some page) :
    page < s.pages.length := by
  obtain ⟨p, hp, -⟩ := h.entry key page hl
  exact (List.getElem?_eq_some_iff.mp hp).1

/-- **A page is added with its set.** -/
theorem Added.booked (ha : Added s s' key) (h : Booked s) (hl : s.cache.lookup key = none) :
    Booked s' := by
  obtain ⟨p, hpages, hkey, hflush⟩ := ha.pages
  have hold : ∀ i, i < s.pages.length → s'.pages[i]? = s.pages[i]? := fun i hi => by
    rw [hpages, List.getElem?_append_left hi]
  have hnew : s'.pages[s.pages.length]? = some p := by
    rw [hpages, List.getElem?_concat_length]
  have hlookup : ∀ k, s'.cache.lookup k =
      if k = key then some s.pages.length else s.cache.lookup k := fun k => by
    rw [ha.cache, lookup_cons]
  have hnotLeaving : ¬ s'.Leaving s.pages.length := fun hleave => by
    have := ((leaving_iff hnew).mp hleave).1
    rw [hflush] at this
    cases this
  have hlist : ∀ set i, i ∈ (s.sets set).cachedPages → i < s.pages.length := fun set i hi => by
    obtain ⟨⟨k, -, hk⟩, -⟩ := (h.listed set i).mp hi
    exact h.toFlushing.lt hk
  have hstays : ∀ set i, s'.Stays set i ↔
      s.Stays set i ∨ (i = s.pages.length ∧ set = key.toSetKey) := by
    intro set i
    constructor
    · rintro ⟨⟨k, hset, hk⟩, hleave⟩
      rw [hlookup] at hk
      split_ifs at hk with heq
      · exact .inr ⟨(Option.some.inj hk).symm, by rw [← hset, heq]⟩
      · refine .inl ⟨⟨k, hset, hk⟩, fun hleave' => hleave ?_⟩
        exact (leaving_congr (hold i (h.toFlushing.lt hk))).mpr hleave'
    · rintro (⟨⟨k, hset, hk⟩, hleave⟩ | ⟨rfl, rfl⟩)
      · refine ⟨⟨k, hset, ?_⟩, fun hleave' => hleave ?_⟩
        · rw [hlookup, if_neg, hk]
          rintro rfl
          rw [hl] at hk
          cases hk
        · exact (leaving_congr (hold i (h.toFlushing.lt hk))).mp hleave'
      · exact ⟨⟨key, rfl, by rw [hlookup, if_pos rfl]⟩, hnotLeaving⟩
  refine ⟨⟨?_, ?_, ?_, ?_, ?_⟩, ha.strategy.trans h.strategy, fun set => ?_, fun set i => ?_⟩
  · rw [ha.cache]
    exact h.keyed.cons hl _
  · intro k i hk
    rw [hlookup] at hk
    split_ifs at hk with heq
    · obtain rfl := Option.some.inj hk
      exact ⟨p, hnew, hkey.trans heq.symm⟩
    · rw [hold i (h.toFlushing.lt hk)]
      exact h.entry k i hk
  · intro i hi
    rw [ha.flushBuffer] at hi
    obtain ⟨q, hq, hqf, hql⟩ := h.buffer i hi
    refine ⟨q, by rw [hold i (h.toFlushing.lt hql)]; exact hq, hqf, ?_⟩
    rw [hlookup, if_neg, hql]
    intro heq
    rw [heq, hl] at hql
    cases hql
  · rw [ha.flushBuffer]
    exact h.once
  · intro i q hq hqf hqe
    rcases Nat.lt_trichotomy i s.pages.length with hi | hi | hi
    · rw [hold i hi] at hq
      exact h.idle i q hq hqf hqe
    · rw [hi, hnew] at hq
      rw [← Option.some.inj hq, hflush] at hqf
      cases hqf
    · rw [hpages, List.getElem?_eq_none (by
        rw [List.length_append, List.length_singleton]; omega)] at hq
      cases hq
  · rw [ha.sets]
    by_cases heq : set = key.toSetKey
    · subst heq
      rw [Function.update_self]
      refine ⟨?_, List.nodup_append.mpr ⟨(h.counted _).2, List.nodup_singleton _, ?_⟩⟩
      · show (s.sets key.toSetKey).numCachedPages + 1 =
          (((s.sets key.toSetKey).cachedPages ++ [s.pages.length]).length : Nat)
        rw [(h.counted _).1, List.length_append, List.length_singleton, Nat.cast_add, Nat.cast_one]
      · intro i hi j hj
        rw [List.mem_singleton.mp hj]
        exact Nat.ne_of_lt (hlist _ i hi)
    · rw [Function.update_of_ne heq]
      exact h.counted set
  · rw [hstays, ← h.listed, ha.sets]
    by_cases heq : set = key.toSetKey
    · subst heq
      rw [Function.update_self]
      show i ∈ (s.sets key.toSetKey).cachedPages ++ [s.pages.length] ↔ _
      rw [List.mem_append, List.mem_singleton]
      exact or_congr Iff.rfl (and_iff_left rfl).symm
    · rw [Function.update_of_ne heq]
      exact (or_iff_left fun hr => heq hr.2).symm

/-! ## Evictions -/

/-- the page does not stay any more, and this is all -/
structure Evicted (s s' : PageCache) (page : Nat) : Prop where
  flushing : Flushing s'
  strategy : s'.strategy = s.strategy
  sets : s'.sets = s.sets
  stays : ∀ set i, s'.Stays set i ↔ s.Stays set i ∧ i ≠ page

/-- a page that is to leave when it is flushed -/
theorem Flushing.leave (h : Flushing s) {p : PDBPage} (hp : s.pages[page]? = some p)
    (hcount : p.refCount = 0) (hf : ∀ p, (f p).key = p.key ∧ (f p).refCount = p.refCount)
    (hflush : (f p).inFlush = true) (hevict : (f p).inEviction = true) :
    Evicted s (s.updatePage page f) page := by
  have honly : ∀ q, s.pages[page]? = some q → q = p := fun q hq => Option.some.inj (hq.symm.trans hp)
  refine ⟨h.updatePage (fun p => (hf p).1) (fun q hq _ => ?_) (fun q hq _ _ => ?_), rfl, rfl, ?_⟩
  · rw [honly q hq]
    exact hflush
  · rw [honly q hq, (hf p).2]
    exact hcount
  · intro set i
    have hnew : (s.updatePage page f).pages[page]? = some (f p) := by
      rw [getElem?_updatePage, if_pos rfl, hp, Option.map_some]
    show s.InCache set i ∧ _ ↔ _
    by_cases hi : i = page
    · rw [hi]
      exact ⟨fun hc => absurd ((leaving_iff hnew).mpr ⟨hflush, hevict⟩) hc.2,
        fun hc => absurd rfl hc.2⟩
    · have hsame : (s.updatePage page f).pages[i]? = s.pages[i]? := by
        rw [getElem?_updatePage, if_neg (Ne.symm hi)]
      rw [leaving_congr hsame]
      exact (and_iff_left hi).symm

/-- a page that leaves at once -/
theorem Flushing.drop (h : Flushing s) {p : PDBPage} (hp : s.pages[page]? = some p)
    (hl : s.cache.lookup p.key = some page) (hflush : p.inFlush = false) {size : UInt64}
    {t : PageCache} (ht : s.freeBytes page size = some t) :
    Evicted s (t.removePage p.key) page := by
  obtain ⟨ptr, -, hr⟩ := Option.bind_eq_some_iff.mp ht
  obtain ⟨shm, -, rfl⟩ := Option.map_eq_some_iff.mp hr
  have hnot : page ∉ s.flushBuffer := fun hin => by
    obtain ⟨q, hq, hqf, -⟩ := h.buffer page hin
    rw [← Option.some.inj (hp.symm.trans hq), hflush] at hqf
    cases hqf
  have hfree : Flushing (s.updatePage page fun p => { p with rawBytes := none }) :=
    h.updatePage (fun _ => rfl) (fun q hq hin => absurd hin hnot) fun q hq hf he => h.idle page q hq hf he
  have hshm : Flushing { s with
      shm, pages := s.pages.modify page fun p => { p with rawBytes := none } } :=
    hfree.congr rfl rfl rfl
  have hkeep : ∀ u : PageCache, (u.removePage p.key).strategy = u.strategy ∧
      (u.removePage p.key).sets = u.sets ∧ (u.removePage p.key).pages = u.pages := by
    intro u
    unfold PageCache.removePage
    split <;> exact ⟨rfl, rfl, rfl⟩
  refine ⟨hshm.removePage fun q hq hin => ?_, (hkeep _).1, (hkeep _).2.1, fun set i => ?_⟩
  · rw [Option.some.inj (hq.symm.trans hl)] at hin
    exact hnot hin
  · have hleaving : (PageCache.removePage { s with
        shm, pages := s.pages.modify page fun p => { p with rawBytes := none } } p.key).Leaving i ↔
        s.Leaving i := by
      rw [leaving_congr (congrArg (fun l : List PDBPage => l[i]?) (hkeep _).2.2)]
      exact leaving_updatePage (f := fun p => { p with rawBytes := none })
        (fun _ => ⟨rfl, rfl⟩) i
    unfold Stays
    rw [hleaving, and_right_comm]
    refine and_congr_left fun _ => ?_
    constructor
    · rintro ⟨k, hset, hk⟩
      rw [lookup_removePage] at hk
      split_ifs at hk with heq
      refine ⟨⟨k, hset, hk⟩, fun hi => heq ?_⟩
      obtain ⟨q, hq, rfl⟩ := h.entry k i hk
      rw [hi] at hq
      rw [Option.some.inj (hq.symm.trans hp)]
    · rintro ⟨⟨k, hset, hk⟩, hi⟩
      refine ⟨k, hset, ?_⟩
      rw [lookup_removePage, if_neg]
      · exact hk
      · intro heq
        rw [heq] at hk
        exact hi (Option.some.inj (hk.symm.trans hl))

/-- **What an eviction does**: nothing, or the page of the key does not stay -/
theorem Flushing.evictPage (h : Flushing s) {tryFlushOrNot : Bool} {r : PageCache × Bool}
    (hs : s.evictPage key tryFlushOrNot = some r) :
    (r = (s, false) ∧ ∀ page ∈ s.cache.lookup key, s.InUse page) ∨
      ∃ page, s.cache.lookup key = some page ∧ ¬ s.InUse page ∧ r.2 = true ∧
        Evicted s r.1 page := by
  unfold PageCache.evictPage at hs
  cases hl : s.cache.lookup key with
  | none =>
    rw [hl] at hs
    exact .inl ⟨(Option.some.inj hs).symm, fun page hpage => nomatch hpage⟩
  | some page =>
    rw [hl] at hs
    obtain ⟨p, hp, hs⟩ := Option.bind_eq_some_iff.mp hs
    obtain ⟨q, hq, hkey⟩ := h.entry key page hl
    rw [← Option.some.inj (hp.symm.trans hq)] at hkey
    have huse : s.InUse page ↔ 0 < p.refCount := by
      unfold InUse
      rw [hp]
      exact ⟨fun hall => hall p rfl, fun hlt q hq => by rw [← Option.some.inj hq]; exact hlt⟩
    by_cases hcount : 0 < p.refCount
    · rw [if_pos hcount] at hs
      refine .inl ⟨(Option.some.inj hs).symm, fun i hi => ?_⟩
      rw [← Option.some.inj hi]
      exact huse.mpr hcount
    · rw [if_neg hcount] at hs
      refine .inr ⟨page, rfl, fun hin => hcount (huse.mp hin), ?_⟩
      have hzero : p.refCount = 0 := Nat.eq_zero_of_not_pos hcount
      split_ifs at hs with hdirty hflush
      · obtain rfl := Option.some.inj hs
        have hclean : p.inFlush = false := by
          cases hpf : p.inFlush with
          | false => rfl
          | true => simp [hpf] at hdirty
        have hleave := h.leave (f := fun p => { p with inFlush := true, inEviction := true }) hp hzero
          (fun _ => ⟨rfl, rfl⟩) rfl rfl
        have hnew : (s.updatePage page fun p =>
            { p with inFlush := true, inEviction := true }).pages[page]? =
              some { p with inFlush := true, inEviction := true } := by
          rw [getElem?_updatePage, if_pos rfl, hp, Option.map_some]
        have hnot : page ∉ s.flushBuffer := fun hin => by
          obtain ⟨q, hq, hqf, -⟩ := h.buffer page hin
          rw [← Option.some.inj (hp.symm.trans hq), hclean] at hqf
          cases hqf
        refine ⟨rfl, ⟨hleave.flushing.push hnew rfl ?_ hnot, rfl, rfl, hleave.stays⟩⟩
        exact (congrArg (fun k => s.cache.lookup k) hkey).trans hl
      · obtain rfl := Option.some.inj hs
        exact ⟨rfl, h.leave (f := fun p => { p with inEviction := true }) hp hzero
          (fun _ => ⟨rfl, rfl⟩) hflush rfl⟩
      · obtain ⟨t, ht, rfl⟩ := Option.map_eq_some_iff.mp hs
        have hdrop := h.drop hp (by rw [hkey]; exact hl) (Bool.eq_false_iff.mpr hflush) ht
        rw [hkey] at hdrop
        exact ⟨rfl, hdrop⟩

/-- **A page is evicted with its set.** -/
theorem Evicted.booked (he : Evicted s s' page) (h : Booked s)
    (hm : page ∈ (s.sets set).cachedPages) :
    Booked ((s'.removeCachedPage (some set) page).countCached (some set) (-1)) := by
  have hstrategy : s'.strategy = .unifiedDBMIN := he.strategy.trans h.strategy
  have hrun : (s'.removeCachedPage (some set) page).countCached (some set) (-1) =
      (s'.updateSet set fun u => u.removeCachedPage page).updateSet set fun u =>
        u.setNumCachedPages (u.numCachedPages + -1) := if_pos hstrategy
  have hsets := sets_updateSet_updateSet s' set (fun u => u.removeCachedPage page)
    fun u => u.setNumCachedPages (u.numCachedPages + -1)
  rw [hrun]
  have hnodup := (h.counted set).2
  -- a page that stays in another set is another page
  have hother : ∀ set' i, set' ≠ set → s.Stays set' i → i ≠ page := by
    rintro set' i hne ⟨⟨k, hset, hk⟩, -⟩ rfl
    obtain ⟨⟨k', hset', hk'⟩, -⟩ := (h.listed set i).mp hm
    obtain ⟨p, hp, rfl⟩ := h.entry k i hk
    obtain ⟨q, hq, rfl⟩ := h.entry k' i hk'
    rw [Option.some.inj (hq.symm.trans hp)] at hset'
    exact hne (hset.symm.trans hset')
  refine ⟨he.flushing.congr rfl rfl rfl, hstrategy, fun set' => ?_, fun set' i => ?_⟩
  · rw [hsets, he.sets]
    by_cases heq : set' = set
    · subst heq
      rw [Function.update_self]
      refine ⟨?_, hnodup.erase page⟩
      show (s.sets set').numCachedPages + -1 = (((s.sets set').cachedPages.erase page).length : Nat)
      have hpos := List.length_pos_of_mem hm
      rw [(h.counted set').1, List.length_erase_of_mem hm]
      omega
    · rw [Function.update_of_ne heq]
      exact h.counted set'
  · rw [hsets, he.sets]
    change _ ↔ s'.Stays set' i
    rw [he.stays]
    by_cases heq : set' = set
    · subst heq
      rw [Function.update_self]
      show i ∈ (s.sets set').cachedPages.erase page ↔ _
      rw [hnodup.mem_erase_iff, h.listed, and_comm]
    · rw [Function.update_of_ne heq, h.listed]
      exact ⟨fun hst => ⟨hst, hother set' i heq hst⟩, fun hst => hst.1⟩

theorem Booked.evictPageOf (h : Booked s) {withSet : Bool}
    (hc : Proper s (.evictPageOf key page withSet))
    (hs : s.localityStep (.evictPageOf key page withSet) = some s') : Booked s' := by
  unfold localityStep PageCache.evictPageOf at hs
  dsimp only at hs
  split_ifs at hs with hkey
  obtain ⟨p, hp, rfl⟩ := Option.map_eq_some_iff.mp hkey
  rw [hp, Option.bind_some] at hs
  obtain ⟨r, hr, rfl⟩ := Option.map_eq_some_iff.mp hs
  rcases h.toFlushing.evictPage hr with ⟨rfl, -⟩ | ⟨q, hq, hidle, htrue, he⟩
  · exact h
  · rw [if_pos htrue]
    rcases hc q hq with huse | ⟨rfl, rfl, hstay⟩
    · exact absurd huse hidle
    · exact he.booked h ((h.listed _ _).mpr ⟨⟨p.key, rfl, hq⟩, hstay⟩)

/-- **A round of the replacement**: what the set has chosen is in its list. -/
theorem Booked.evictForDBMIN (h : Booked s) (hs : s.evictForDBMIN set = some s') : Booked s' := by
  unfold PageCache.evictForDBMIN at hs
  split_ifs at hs
  · cases hsel : s.selectPageForReplacement set with
    | none =>
      rw [hsel] at hs
      obtain rfl := Option.some.inj hs
      exact h
    | some page =>
      rw [hsel] at hs
      have hm : page ∈ (s.sets set).cachedPages := by
        have hmem := List.mem_of_find?_eq_some hsel
        split_ifs at hmem
        · exact List.mem_reverse.mp hmem
        · exact hmem
      obtain ⟨⟨key, hset, hl⟩, hstay⟩ := (h.listed set page).mp hm
      obtain ⟨p, hp, hkey⟩ := h.entry key page hl
      refine @Booked.evictPageOf _ _ page key h true (fun q hq => .inr ?_) ?_
      · rw [← Option.some.inj (hl.symm.trans hq)]
        exact ⟨rfl, rfl, hstay⟩
      · unfold localityStep
        dsimp only
        rw [hp, Option.map_some, hkey, if_pos rfl, setOf, if_pos rfl, hset]
        exact hs
  · obtain rfl := Option.some.inj hs
    exact h

/-! ## The flush consumers -/

/-- a page is put into the buffer and is not evicted -/
theorem Booked.flushPageWithoutEviction (h : Booked s)
    (hs : s.flushPageWithoutEviction key = some s') : Booked s' := by
  unfold PageCache.flushPageWithoutEviction at hs
  cases hl : s.cache.lookup key with
  | none =>
    rw [hl] at hs
    obtain rfl := Option.some.inj hs
    exact h
  | some page =>
    rw [hl] at hs
    obtain ⟨p, hp, rfl⟩ := Option.map_eq_some_iff.mp hs
    obtain ⟨q, hq, hkey⟩ := h.entry key page hl
    rw [← Option.some.inj (hp.symm.trans hq)] at hkey
    split_ifs with hdirty
    · have hclean : p.inFlush = false := by
        cases hpf : p.inFlush with
        | false => rfl
        | true => simp [hpf] at hdirty
      have hnot : page ∉ s.flushBuffer := fun hin => by
        obtain ⟨q, hq, hqf, -⟩ := h.buffer page hin
        rw [← Option.some.inj (hp.symm.trans hq), hclean] at hqf
        cases hqf
      let f : PDBPage → PDBPage := fun p => { p with inFlush := true, inEviction := false }
      have hflags : Flushing (s.updatePage page f) :=
        h.toFlushing.updatePage (fun _ => rfl) (fun _ _ _ => rfl) fun _ _ _ he => nomatch he
      have hnew : (s.updatePage page f).pages[page]? = some (f p) := by
        rw [getElem?_updatePage, if_pos rfl, hp, Option.map_some]
      refine h.congr (hflags.push hnew rfl ?_ hnot) rfl rfl fun set i => ?_
      · exact (congrArg (fun k => s.cache.lookup k) hkey).trans hl
      · refine and_congr Iff.rfl (not_congr ?_)
        by_cases hi : i = page
        · subst hi
          have hno : ¬ (s.updatePage i f).Leaving i := fun hleave =>
            nomatch ((leaving_iff hnew).mp hleave).2
          have hno' : ¬ s.Leaving i := fun hleave => by
            have := ((leaving_iff hp).mp hleave).1
            rw [hclean] at this
            cases this
          exact iff_of_false hno hno'
        · refine leaving_congr ?_
          exact (getElem?_updatePage s page i f).trans (if_neg (Ne.symm hi))
    · exact h

/-- **A flush consumer is done with a page**: if the page was to leave, it is in no list. -/
theorem Booked.flushed (h : Booked s) (hs : s.flushed page = some s') : Booked s' := by
  unfold PageCache.flushed at hs
  split_ifs at hs with hin
  obtain ⟨p, hp, hs⟩ := Option.bind_eq_some_iff.mp hs
  obtain ⟨t, ht, rfl⟩ := Option.map_eq_some_iff.mp hs
  obtain ⟨q, hq, hflush, hl⟩ := h.buffer page hin
  obtain rfl := Option.some.inj (hq.symm.trans hp)
  let s₁ : PageCache := { s with flushBuffer := s.flushBuffer.erase page }
  have hout : page ∉ s₁.flushBuffer := fun hm => (h.once.mem_erase_iff.mp hm).1 rfl
  have h₁ : Flushing s₁ :=
    ⟨h.keyed, h.entry, fun i hi => h.buffer i (List.mem_of_mem_erase hi), h.once.erase page, h.idle⟩
  let f : PDBPage → PDBPage := fun p => { p with inFlush := false, dirty := false }
  have hclear : ∀ u : PageCache, Flushing u → page ∉ u.flushBuffer → Flushing (u.updatePage page f) :=
    fun u hu hnot => hu.updatePage (fun _ => rfl) (fun _ _ hm => absurd hm hnot)
      fun _ _ hf => nomatch hf
  have hflags : ∀ (u : PageCache) (i : Nat), i ≠ page → u.pages[i]? = s.pages[i]? →
      ((u.updatePage page f).Leaving i ↔ s.Leaving i) := fun u i hi hu => by
    refine leaving_congr ?_
    rw [getElem?_updatePage, if_neg (Ne.symm hi)]
    exact hu
  have hdone : ∀ u : PageCache, ¬ (u.updatePage page f).Leaving page := by
    rintro u ⟨q, hq, hqf, -⟩
    rw [getElem?_updatePage, if_pos rfl] at hq
    obtain ⟨q', -, rfl⟩ := Option.map_eq_some_iff.mp hq
    cases hqf
  by_cases hevict : q.inEviction = true
  · -- the page leaves; it was not in the list
    have hcount := h.idle page q hp hflush hevict
    have hleave : s.Leaving page := (leaving_iff hp).mpr ⟨hflush, hevict⟩
    have hcond : (q.refCount = 0 && q.inEviction) = true := by
      rw [hcount, hevict]
      rfl
    obtain ⟨hft, hct, hbt, hst, hset, hpt⟩ : Flushing t ∧ t.cache = s.cache ∧
        t.flushBuffer = s₁.flushBuffer ∧ t.strategy = s.strategy ∧ t.sets = s.sets ∧
        ∀ i, i ≠ page → t.pages[i]? = s.pages[i]? := by
      split_ifs at ht
      · obtain ⟨ptr, -, hr⟩ := Option.bind_eq_some_iff.mp ht
        obtain ⟨shm, -, rfl⟩ := Option.map_eq_some_iff.mp hr
        have hfree : Flushing (s₁.updatePage page fun p => { p with rawBytes := none }) :=
          h₁.updatePage (fun _ => rfl) (fun _ _ hm => absurd hm hout)
            fun q hq hf he => h.idle page q hq hf he
        refine ⟨hfree.congr rfl rfl rfl, rfl, rfl, rfl, rfl, fun i hi => ?_⟩
        exact List.getElem?_modify_ne _ _ (Ne.symm hi)
      · obtain rfl := Option.some.inj ht
        exact ⟨h₁, rfl, rfl, rfl, rfl, fun _ _ => rfl⟩
    rw [if_pos hcond]
    have hkeep : (t.removePage q.key).strategy = t.strategy ∧
        (t.removePage q.key).sets = t.sets ∧ (t.removePage q.key).pages = t.pages ∧
        (t.removePage q.key).flushBuffer = t.flushBuffer := by
      unfold PageCache.removePage
      split <;> exact ⟨rfl, rfl, rfl, rfl⟩
    have hremoved : Flushing (t.removePage q.key) := by
      refine hft.removePage fun i hi hm => ?_
      rw [hct, hl] at hi
      rw [← Option.some.inj hi, hbt] at hm
      exact hout hm
    refine h.congr (hclear _ hremoved (by rw [hkeep.2.2.2, hbt]; exact hout))
      (hkeep.1.trans hst) (hkeep.2.1.trans hset) fun set i => ?_
    have hlookup : ∀ k, (t.removePage q.key).cache.lookup k =
        if k = q.key then none else s.cache.lookup k := fun k => by
      rw [lookup_removePage, hct]
    by_cases hi : i = page
    · subst hi
      refine iff_of_false (fun hst => ?_) fun hst => hst.2 hleave
      obtain ⟨⟨k, -, hk⟩, -⟩ := hst
      change (t.removePage q.key).cache.lookup k = some i at hk
      rw [hlookup] at hk
      split_ifs at hk with heq
      obtain ⟨p, hp', rfl⟩ := h.entry k i hk
      exact heq (by rw [Option.some.inj (hp'.symm.trans hp)])
    · refine and_congr ⟨?_, ?_⟩ (not_congr (hflags _ i hi (by rw [hkeep.2.2.1]; exact hpt i hi)))
      · rintro ⟨k, hset', hk⟩
        change (t.removePage q.key).cache.lookup k = some i at hk
        rw [hlookup] at hk
        split_ifs at hk
        exact ⟨k, hset', hk⟩
      · rintro ⟨k, hset', hk⟩
        refine ⟨k, hset', ?_⟩
        show (t.removePage q.key).cache.lookup k = some i
        rw [hlookup, if_neg, hk]
        rintro rfl
        exact hi (Option.some.inj (hk.symm.trans hl))
  · have hfalse : q.inEviction = false := Bool.eq_false_iff.mpr hevict
    have hno : ¬ s.Leaving page := fun hleave => hevict ((leaving_iff hp).mp hleave).2
    rw [if_neg (by rw [hfalse, Bool.and_false]; exact Bool.false_ne_true)] at ht
    obtain rfl := Option.some.inj ht
    rw [if_neg (by rw [hfalse, Bool.and_false]; exact Bool.false_ne_true)]
    refine h.congr (hclear _ h₁ hout) rfl rfl fun set i => and_congr Iff.rfl (not_congr ?_)
    by_cases hi : i = page
    · subst hi
      exact iff_of_false (hdone _) hno
    · exact hflags _ i hi rfl

/-! ## Runs -/

/-- **One step** -/
theorem Booked.step (h : Booked s) {op : LocalityOp} (hc : Proper s op)
    (hs : s.localityStep op = some s') : Booked s' := by
  unfold localityStep at hs
  cases op with
  | getPage key withSet loaded =>
    dsimp only at hs
    unfold PageCache.getPage at hs
    cases hl : s.cache.lookup key with
    | some page =>
      rw [hl] at hs
      obtain rfl := Option.some.inj hs
      exact h.hit hl (hc.1 page hl) withSet
    | none =>
      rw [hl] at hs
      cases loaded with
      | none =>
        obtain rfl := Option.some.inj hs
        exact h
      | some l =>
        obtain ⟨rfl, hnone⟩ := hc.2 hl l rfl
        exact (addPage_spec h.strategy hnone hs).booked h hnone
  | getPage1 key withSet =>
    obtain rfl := Option.some.inj hs
    unfold PageCache.getPage1
    cases hl : s.cache.lookup key with
    | some page => exact h.hit hl (hc page hl) withSet
    | none => exact h
  | getNewPage key size =>
    dsimp only at hs
    unfold PageCache.getNewPage at hs
    cases hl : s.cache.lookup key with
    | some page =>
      rw [hl] at hs
      obtain rfl := Option.some.inj hs
      exact h
    | none =>
      rw [hl] at hs
      exact (addPage_spec h.strategy hl hs).booked h hl
  | decRefCount page =>
    obtain rfl := Option.some.inj hs
    refine h.congr (h.toFlushing.updatePage (fun _ => rfl) (fun p hp hin => ?_)
      fun p hp hflush hevict => ?_) rfl rfl fun set i => ?_
    · obtain ⟨q, hq, hflush, -⟩ := h.buffer page hin
      rw [Option.some.inj (hp.symm.trans hq)]
      exact hflush
    · show p.refCount - 1 = 0
      rw [h.idle page p hp hflush hevict]
    · exact and_congr Iff.rfl (not_congr (leaving_updatePage
        (f := fun p => { p with refCount := p.refCount - 1 }) (fun _ => ⟨rfl, rfl⟩) i))
  | evictPageOf key page withSet => exact h.evictPageOf hc hs
  | evictPage key tryFlushOrNot =>
    dsimp only at hs
    obtain ⟨r, hr, rfl⟩ := Option.map_eq_some_iff.mp hs
    rcases h.toFlushing.evictPage hr with ⟨rfl, -⟩ | ⟨q, hq, hidle, -, -⟩
    · exact h
    · exact absurd (hc q hq) hidle
  | evictForDBMIN set => exact h.evictForDBMIN hs
  | flushPageWithoutEviction key => exact h.flushPageWithoutEviction hs
  | flushed page => exact h.flushed hs

theorem Booked.new (memSize : UInt64) (policy : SetKey → ReplacementPolicy × UInt64) :
    Booked (new .unifiedDBMIN memSize policy) := by
  refine ⟨⟨List.nodup_nil, ?_, ?_, List.nodup_nil, ?_⟩, rfl, fun _ => ⟨rfl, List.nodup_nil⟩, ?_⟩
  · exact fun _ _ hl => nomatch hl
  · exact fun _ hm => absurd hm List.not_mem_nil
  · exact fun _ _ hp => nomatch hp
  · exact fun _ _ => ⟨fun hm => absurd hm List.not_mem_nil, fun ⟨⟨_, _, hl⟩, _⟩ => nomatch hl⟩

/-- **The books of the sets.**  In every run of proper steps, each set counts the pages in its list,
none of them twice; and the lists have exactly the pages that are in the cache if and only if none of
these is about to leave. -/
theorem booked_of_reach {memSize : UInt64} {policy : SetKey → ReplacementPolicy × UInt64}
    (h : Reach localityStep Proper (new .unifiedDBMIN memSize policy) s) :
    Counted s ∧ (Listed s ↔ ∀ set page, s.InCache set page → ¬ s.Leaving page) := by
  have hb : Booked s := h.inv (Booked.new memSize policy) fun _ _ _ ht hc hs => ht.step hc hs
  refine ⟨hb.counted, fun hlist set page hin => ?_, fun hstay set page => ?_⟩
  · exact ((hb.listed set page).mp ((hlist set page).mpr hin)).2
  · rw [hb.listed]
    exact ⟨fun hst => hst.1, fun hin => ⟨hin, hstay set page hin⟩⟩

/-- three pages of a set that wants one: two of them go through the flush -/
theorem booked_of_reach_three : ∃ s : PageCache,
    s.cache = [(⟨⟨1, 2, 3⟩, 2⟩, 2)] ∧ (s.sets ⟨1, 2, 3⟩).cachedPages = [2] ∧
      (s.sets ⟨1, 2, 3⟩).numCachedPages = 1 ∧ Counted s ∧
      (Listed s ↔ ∀ set page, s.InCache set page → ¬ s.Leaving page) := by
  have hrun : (Machine.run (guarded localityStep Proper) (new .unifiedDBMIN 8192 fun _ => (.lru, 1))
      [.getNewPage ⟨⟨1, 2, 3⟩, 0⟩ 64, .getNewPage ⟨⟨1, 2, 3⟩, 1⟩ 64, .getPage1 ⟨⟨1, 2, 3⟩, 0⟩ true,
        .decRefCount 0, .decRefCount 0, .decRefCount 1, .evictForDBMIN ⟨1, 2, 3⟩, .flushed 1,
        .evictForDBMIN ⟨1, 2, 3⟩, .flushed 0, .getPage ⟨⟨1, 2, 3⟩, 2⟩ true (some (2, 64))]).map
      (fun s => (s.cache, (s.sets ⟨1, 2, 3⟩).cachedPages, (s.sets ⟨1, 2, 3⟩).numCachedPages)) =
        some ([(⟨⟨1, 2, 3⟩, 2⟩, 2)], [2], 1) := by decide +kernel
  obtain ⟨s, hs, hfacts⟩ := Option.map_eq_some_iff.mp hrun
  obtain ⟨hcache, hrest⟩ := Prod.mk.inj hfacts
  obtain ⟨hlist, hnum⟩ := Prod.mk.inj hrest
  exact ⟨s, hcache, hlist, hnum, booked_of_reach (Reach.of_run _ hs)⟩

/-- **A page is hit while it leaves**: it stays in the cache and comes back to the list, but is not
counted -/
theorem booked_not_always : ∃ s : PageCache,
    Reach localityStep (fun _ _ => True) (new .unifiedDBMIN 8192 fun _ => (.lru, 1)) s ∧
      s.cache = [(⟨⟨1, 2, 3⟩, 0⟩, 0)] ∧ s.flushBuffer = [] ∧
      (s.sets ⟨1, 2, 3⟩).cachedPages = [0] ∧ (s.sets ⟨1, 2, 3⟩).numCachedPages = 0 ∧
      ¬ Counted s := by
  have hrun : (Machine.run (guarded localityStep fun _ _ => True)
      (new .unifiedDBMIN 8192 fun _ => (.lru, 1))
      [.getNewPage ⟨⟨1, 2, 3⟩, 0⟩ 64, .decRefCount 0, .evictForDBMIN ⟨1, 2, 3⟩,
        .getPage ⟨⟨1, 2, 3⟩, 0⟩ true none, .flushed 0]).map
      (fun s => (s.cache, s.flushBuffer, (s.sets ⟨1, 2, 3⟩).cachedPages,
        (s.sets ⟨1, 2, 3⟩).numCachedPages)) =
        some ([(⟨⟨1, 2, 3⟩, 0⟩, 0)], [], [0], 0) := by decide +kernel
  obtain ⟨s, hs, hfacts⟩ := Option.map_eq_some_iff.mp hrun
  obtain ⟨hcache, hrest⟩ := Prod.mk.inj hfacts
  obtain ⟨hbuffer, hrest⟩ := Prod.mk.inj hrest
  obtain ⟨hlist, hnum⟩ := Prod.mk.inj hrest
  refine ⟨s, Reach.of_run _ hs, hcache, hbuffer, hlist, hnum, fun h => ?_⟩
  have hcount := (h ⟨1, 2, 3⟩).1
  rw [hnum, hlist] at hcount
  exact absurd hcount (by decide)

end PageCache
end Accounting
end Netsdb
