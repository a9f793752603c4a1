import Netsdb.Storage.PageLife
import Mathlib.Data.Option.Basic

/-!
# The frame of a step of the cache

* `Inv`            every page is as it should be, and the file of a set has what was last written;
* `Change`         what a step about one page may do;
* `Inv.change`     the frame: the page is changed, and the others are left alone;
* `unpin_inv`, `hit_inv`, `queue_inv`, `evict_inv`, `freeEvicted_inv`  the steps of the cache about
                   one page.
-/

set_option linter.unusedSectionVars false

namespace Netsdb
namespace PangeaStorageServer

variable {C : Type*}

/-- what was last written to each page -/
abbrev Last (C : Type*) := CacheKey → Option C

structure Inv (s : PangeaStorageServer C) (last : Last C) : Prop where
  pages : ∀ page p, s.pages[page]? = some p → PageOk (s.view last page p)
  cached : ∀ key page, s.cache key = some page →
    ∃ p : PDBPage C, s.pages[page]? = some p ∧ p.key = key
  known : ∀ page, s.pages.length ≤ page → s.flight page = [] ∧ s.evicting.count page = 0
  entries : ∀ set u p i id bytes, s.sets set = some u → u.file.load p i = some (id, bytes) →
    last ⟨set, id⟩ = some bytes
  indexed : ∀ set u, s.sets set = some u → u.file.Indexed
  tabled : ∀ set u, s.sets set = some u → ∀ e ∈ u.dirtyPagesInPageCache, e.1 < u.seqId
  ids : ∀ key bytes, last key = some bytes →
    ∃ u, s.sets key.toSetKey = some u ∧ key.pageId < u.seqId
  /-- a page that is being written is in no file, and there is no other of its key -/
  writers : ∀ (page : Nat) (p : PDBPage C), s.pages[page]? = some p → p.writer ≠ .unpinned →
    (∀ u q i bytes, s.sets p.key.toSetKey = some u →
      u.file.load q i ≠ some (p.key.pageId, bytes)) ∧
    ∀ (page' : Nat) (p' : PDBPage C), s.pages[page']? = some p' → p'.key = p.key → page' = page
  kept : ∀ key bytes, last key = some bytes → key.isFlushed = true →
    s.Stored key ∨
      ∃ (page : Nat) (p : PDBPage C), s.pages[page]? = some p ∧ p.key = key ∧ p.dirty = true

/-! ## The frame of a step -/

/-- what a step may do to a set while it is about the page `p` -/
structure SetLe (last : Last C) (p : PDBPage C) (set : SetKey) (u u' : UserSet C) : Prop where
  seqId : u.seqId ≤ u'.seqId
  entries : ∀ q i id bytes, u'.file.load q i = some (id, bytes) →
    u.file.load q i = some (id, bytes) ∨
      (p.writer = .unpinned ∧ p.key = ⟨set, id⟩ ∧ last p.key = some bytes)
  indexed : u.file.Indexed → u'.file.Indexed
  has : ∀ id, u.file.Has id → u'.file.Has id
  tabled : (∀ e ∈ u.dirtyPagesInPageCache, e.1 < u.seqId) →
    ∀ e ∈ u'.dirtyPagesInPageCache, e.1 < u'.seqId

theorem SetLe.refl (last : Last C) (p : PDBPage C) (set : SetKey) (u : UserSet C) :
    SetLe last p set u u :=
  ⟨Nat.le_refl _, fun _ _ _ _ h => .inl h, fun h => h, fun _ h => h, fun h => h⟩

/-- a step that turns the page `p` into `p'` -/
structure Change (s s' : PangeaStorageServer C) (last : Last C) (page : Nat) (p p' : PDBPage C) :
    Prop where
  pages : s'.pages = s.pages.set page p'
  key : p'.key = p.key
  writer : p'.writer ≠ .unpinned → p.writer ≠ .unpinned
  dirty : p.key.isFlushed = true → p.dirty = true → p'.dirty = true ∨ s.Stored p.key
  cache : ∀ key page', page' ≠ page → (s'.cache key = some page' ↔ s.cache key = some page')
  cacheSelf : ∀ key, s'.cache key = some page → s.cache key = some page
  flight : ∀ page', page' ≠ page → s'.flight page' = s.flight page'
  evicting : ∀ page', page' ≠ page → s'.evicting.count page' = s.evicting.count page'
  sets : ∀ set, Option.Rel (SetLe last p set) (s.sets set) (s'.sets set)
  listed : ∀ key, s.Listed key → s'.Listed key ∨ (key = p.key ∧ s.cache key = some page)
  entered : ∀ key, s'.Entered key → s.Entered key ∨ (key = p.key ∧ p.writer ≠ .unpinned)

section
variable {s s' : PangeaStorageServer C} {last : Last C} {page : Nat} {p p' : PDBPage C}

theorem Change.set_some (h : Change s s' last page p p') {set : SetKey} {u : UserSet C}
    (hu : s.sets set = some u) : ∃ u', s'.sets set = some u' ∧ SetLe last p set u u' := by
  have hs := h.sets set
  rw [hu] at hs
  cases hs' : s'.sets set with
  | none =>
    rw [hs'] at hs
    cases hs
  | some u' =>
    rw [hs'] at hs
    cases hs with
    | some hle => exact ⟨u', rfl, hle⟩

theorem Change.of_set_some (h : Change s s' last page p p') {set : SetKey} {u' : UserSet C}
    (hu : s'.sets set = some u') : ∃ u, s.sets set = some u ∧ SetLe last p set u u' := by
  have hs := h.sets set
  rw [hu] at hs
  cases hs' : s.sets set with
  | none =>
    rw [hs'] at hs
    cases hs
  | some u =>
    rw [hs'] at hs
    cases hs with
    | some hle => exact ⟨u, rfl, hle⟩

theorem Change.stored (h : Change s s' last page p p') {key : CacheKey} (hk : s.Stored key) :
    s'.Stored key := by
  obtain ⟨u, hu, hhas⟩ := hk
  obtain ⟨u', hu', hle⟩ := h.set_some hu
  exact ⟨u', hu', hle.has _ hhas⟩

/-- the other pages are left alone -/
theorem Change.others (h : Change s s' last page p p') (hi : Inv s last)
    (hp : s.pages[page]? = some p) {page' : Nat} {q : PDBPage C} (hne : page' ≠ page)
    (hq : s.pages[page']? = some q) : (s.view last page' q).Le (s'.view last page' q) := by
  refine ⟨rfl, rfl, h.cache _ _ hne, h.flight _ hne, h.evicting _ hne, fun hk hd hl => ?_,
    fun he => ?_, h.stored⟩
  · obtain hl' | ⟨-, hc⟩ := h.listed _ hl
    · exact hl'
    · -- a dirty page is the one in the cache
      have hcq : s.cache q.key = some page' := (hi.pages page' q hq).cached hk hd
      rw [hc] at hcq
      exact absurd (Option.some.inj hcq).symm hne
  · obtain he' | ⟨hkey, hw⟩ := h.entered _ he
    · exact he'
    · exact absurd ((hi.writers page p hp hw).2 page' q hq hkey) hne

variable (p') in
/-- **The frame.** -/
theorem Inv.change (hi : Inv s last) (hp : s.pages[page]? = some p)
    (h : Change s s' last page p p') (hok : PageOk (s'.view last page p')) : Inv s' last := by
  obtain ⟨hlt, -⟩ := List.getElem?_eq_some_iff.mp hp
  have hget : ∀ (q : Nat) (r : PDBPage C), s'.pages[q]? = some r →
      (q = page ∧ r = p') ∨ (q ≠ page ∧ s.pages[q]? = some r) := by
    intro q r hr
    rw [h.pages, List.getElem?_set] at hr
    by_cases hq : page = q
    · rw [if_pos hq, if_pos hlt] at hr
      exact .inl ⟨hq.symm, (Option.some.inj hr).symm⟩
    · rw [if_neg hq] at hr
      exact .inr ⟨fun e => hq e.symm, hr⟩
  have hset : ∀ (q : Nat) (r : PDBPage C), s.pages[q]? = some r → ∃ r', s'.pages[q]? = some r' ∧ r'.key = r.key ∧
      (q ≠ page → r' = r) ∧ (q = page → r' = p') := by
    intro q r hr
    rw [h.pages, List.getElem?_set]
    by_cases hq : page = q
    · subst hq
      rw [hp] at hr
      obtain rfl := Option.some.inj hr
      exact ⟨p', by rw [if_pos rfl, if_pos hlt], h.key, fun e => absurd rfl e, fun _ => rfl⟩
    · exact ⟨r, by rw [if_neg hq, hr], rfl, fun _ => rfl, fun e => absurd e.symm hq⟩
  constructor
  · intro q r hr
    obtain ⟨rfl, rfl⟩ | ⟨hq, hr⟩ := hget q r hr
    · exact hok
    · exact (hi.pages q r hr).mono (h.others hi hp hq hr)
  · intro key q hq
    have hq' : s.cache key = some q := by
      by_cases hqp : q = page
      · subst hqp
        exact h.cacheSelf key hq
      · exact (h.cache key q hqp).mp hq
    obtain ⟨r, hr, hk⟩ := hi.cached key q hq'
    obtain ⟨r', hr', hk', -⟩ := hset q r hr
    exact ⟨r', hr', hk'.trans hk⟩
  · intro q hq
    rw [h.pages, List.length_set] at hq
    have hne : q ≠ page := by omega
    rw [h.flight q hne, h.evicting q hne]
    exact hi.known q hq
  · intro set u' q i id bytes hu' hload
    obtain ⟨u, hu, hle⟩ := h.of_set_some hu'
    obtain hold | ⟨-, hk, hl⟩ := hle.entries q i id bytes hload
    · exact hi.entries set u q i id bytes hu hold
    · rw [← hk]
      exact hl
  · intro set u' hu'
    obtain ⟨u, hu, hle⟩ := h.of_set_some hu'
    exact hle.indexed (hi.indexed set u hu)
  · intro set u' hu'
    obtain ⟨u, hu, hle⟩ := h.of_set_some hu'
    exact hle.tabled (hi.tabled set u hu)
  · intro key bytes hl
    obtain ⟨u, hu, hlt⟩ := hi.ids key bytes hl
    obtain ⟨u', hu', hle⟩ := h.set_some hu
    exact ⟨u', hu', Nat.lt_of_lt_of_le hlt hle.seqId⟩
  · intro q r hr hw
    -- a page that is being written is the same as before
    obtain ⟨r₀, hr₀, hk₀, hw₀⟩ : ∃ r₀, s.pages[q]? = some r₀ ∧ r₀.key = r.key ∧
        r₀.writer ≠ .unpinned := by
      obtain ⟨rfl, rfl⟩ | ⟨-, hr⟩ := hget q r hr
      · exact ⟨p, hp, h.key.symm, h.writer hw⟩
      · exact ⟨r, hr, rfl, hw⟩
    obtain ⟨hno, hone⟩ := hi.writers q r₀ hr₀ hw₀
    rw [← hk₀]
    refine ⟨fun u' qq i bytes hu' hload => ?_, fun q' r' hr' hk' => ?_⟩
    · obtain ⟨u, hu, hle⟩ := h.of_set_some hu'
      obtain hold | ⟨hun, hk, -⟩ := hle.entries qq i _ bytes hload
      · exact hno u qq i bytes hu hold
      · -- the page that is appended has no writer
        obtain rfl := hone page p hp hk
        rw [hp] at hr₀
        exact hw₀ (Option.some.inj hr₀ ▸ hun)
    · obtain ⟨rfl, rfl⟩ | ⟨-, hr'⟩ := hget q' r' hr'
      · exact hone q' p hp (h.key.symm.trans hk')
      · exact hone q' r' hr' hk'
  · intro key bytes hl hf
    obtain hst | ⟨q, r, hr, hk, hd⟩ := hi.kept key bytes hl hf
    · exact .inl (h.stored hst)
    · obtain ⟨r', hr', hk', hother, hself⟩ := hset q r hr
      by_cases hq : q = page
      · subst hq
        rw [hp] at hr
        obtain rfl := Option.some.inj hr
        obtain hd' | hst := h.dirty (by rw [hk]; exact hf) hd
        · exact .inr ⟨q, r', hr', hk'.trans hk, by rw [hself rfl]; exact hd'⟩
        · rw [hk] at hst
          exact .inl (h.stored hst)
      · exact .inr ⟨q, r', hr', hk'.trans hk, by rw [hother hq]; exact hd⟩

theorem sets_refl (s : PangeaStorageServer C) (last : Last C) (p : PDBPage C) (set : SetKey) :
    Option.Rel (SetLe last p set) (s.sets set) (s.sets set) := by
  cases s.sets set with
  | none => exact .none
  | some u => exact .some (SetLe.refl last p set u)

theorem sets_update {k : SetKey} {u u' : UserSet C} (hu : s.sets k = some u)
    (hle : SetLe last p k u u') (set : SetKey) :
    Option.Rel (SetLe last p set) (s.sets set) (Function.update s.sets k (some u') set) := by
  by_cases hk : set = k
  · subst hk
    rw [Function.update_self, hu]
    exact .some hle
  · rw [Function.update_of_ne hk]
    exact sets_refl s last p set

/-- a step that leaves the sets and the cache as they are -/
theorem Change.ofPage (hpages : s'.pages = s.pages.set page p') (hcache : s'.cache = s.cache)
    (hsets : s'.sets = s.sets) (hkey : p'.key = p.key)
    (hwriter : p'.writer ≠ .unpinned → p.writer ≠ .unpinned)
    (hdirty : p.key.isFlushed = true → p.dirty = true → p'.dirty = true ∨ s.Stored p.key)
    (hflight : ∀ page', page' ≠ page → s'.flight page' = s.flight page')
    (hevicting : ∀ page', page' ≠ page → s'.evicting.count page' = s.evicting.count page') :
    Change s s' last page p p' := by
  refine ⟨hpages, hkey, hwriter, hdirty, fun key page' _ => by rw [hcache],
    fun key h => by rwa [hcache] at h, hflight, hevicting, fun set => ?_, fun key h => .inl ?_,
    fun key h => .inl ?_⟩
  · rw [hsets]
    exact sets_refl s last p set
  · unfold Listed
    rw [hsets]
    exact h
  · unfold Entered at h
    rw [hsets] at h
    exact h

end

/-! ## One step -/

section
variable {s : PangeaStorageServer C} {last : Last C} {page : Nat} {p : PDBPage C}

/-- the page alone is changed -/
theorem Inv.updatePage (hi : Inv s last) (hp : s.pages[page]? = some p)
    (f : PDBPage C → PDBPage C) (hkey : (f p).key = p.key)
    (hwriter : (f p).writer ≠ .unpinned → p.writer ≠ .unpinned)
    (hdirty : (f p).dirty = p.dirty) (hok : PageOk (s.view last page (f p))) :
    Inv (s.updatePage page f) last :=
  hi.change _ hp (Change.ofPage (updatePage_pages hp f) rfl rfl hkey hwriter
    (fun _ hd => .inl (hdirty.trans hd)) (fun _ _ => rfl) fun _ _ => rfl) hok

/-- the one that added a page unpins it -/
theorem unpin_inv (hi : Inv s last) (hp : s.pages[page]? = some p) (hw : p.writer = .writing) :
    Inv (s.updatePage page fun p => { p with refCount := p.refCount - 1, writer := .unpinned })
      last := by
  have hok := hi.pages page p hp
  have hne : p.writer ≠ .unpinned := by rw [hw]; nofun
  have hpin : 0 < p.refCount := hok.pins hne
  have hbytes : p.rawBytes ≠ none := hok.pinned hpin
  have hev : ¬ 0 < s.evicting.count page := fun he => by
    have := (hok.evicting he).1
    exact absurd this (Nat.ne_of_gt hpin)
  refine hi.updatePage hp _ rfl (fun h => absurd rfl h) rfl ?_
  refine ⟨hok.last, hok.bytes, fun _ => hbytes, fun h => absurd rfl h, fun h => absurd rfl h,
    hok.idle, hok.busy, nofun, hok.once, fun he => absurd he hev, hok.cached,
    fun _ hb => absurd hb hbytes, hok.clean, fun hf hd hwait => ⟨hbytes, .inr ?_⟩, hok.flushed⟩
  obtain ⟨-, hl⟩ := hok.waiting hf hd hwait
  exact hl.resolve_left fun h => by
    rw [show p.writer = .adding from h] at hw
    cases hw

/-- a pin is given back -/
theorem decRefCount_inv (hi : Inv s last) (hp : s.pages[page]? = some p)
    (hpin : (if p.writer = .unpinned then 0 else 1) < p.refCount) :
    Inv (s.updatePage page fun p => { p with refCount := p.refCount - 1 }) last := by
  have hok := hi.pages page p hp
  have hpos : 0 < p.refCount := by omega
  have hbytes : p.rawBytes ≠ none := hok.pinned hpos
  have hev : ¬ 0 < s.evicting.count page := fun he => by
    have := (hok.evicting he).1
    exact absurd this (Nat.ne_of_gt hpos)
  refine hi.updatePage hp _ rfl (fun h => h) rfl ?_
  refine ⟨hok.last, hok.bytes, fun _ => hbytes, fun hw => ?_, hok.writing, hok.idle, hok.busy,
    hok.adding, hok.once, fun he => absurd he hev, hok.cached, fun _ hb => absurd hb hbytes,
    hok.clean, hok.waiting, hok.flushed⟩
  rw [if_neg (show p.writer ≠ .unpinned from hw)] at hpin
  exact Nat.sub_pos_of_lt hpin

/-- while the lock is free a page in the cache has its memory -/
theorem bytes_of_unlocked (hi : Inv s last) (hu : s.unlocked = true)
    (hp : s.pages[page]? = some p) (hc : s.cache p.key = some page) : p.rawBytes ≠ none := by
  intro hb
  obtain ⟨hfl, -⟩ := (hi.pages page p hp).freed hc hb
  have hmem : some FlushStage.freed ∈ s.flight page := by
    rw [show s.flight page = [some .freed] from hfl]
    exact List.mem_singleton.mpr rfl
  cases flight_of_unlocked hu hmem

/-- a page is pinned again -/
theorem hit_inv (hi : Inv s last) (hu : s.unlocked = true) {key : CacheKey}
    (hc : s.cache key = some page) (hev : page ∉ s.evicting) :
    Inv (s.updatePage page fun p => { p with refCount := p.refCount + 1 }) last := by
  obtain ⟨p, hp, rfl⟩ := hi.cached key page hc
  have hok := hi.pages page p hp
  have hbytes := bytes_of_unlocked hi hu hp hc
  refine hi.updatePage hp _ rfl (fun h => h) rfl ?_
  refine ⟨hok.last, hok.bytes, fun _ => hbytes, fun _ => Nat.succ_pos _, hok.writing, hok.idle,
    hok.busy, hok.adding, hok.once, fun he => absurd (List.count_pos_iff.mp he) hev, hok.cached,
    fun _ hb => absurd hb hbytes, hok.clean, hok.waiting, hok.flushed⟩

/-- a dirty page without pins is queued -/
theorem queue_inv (hi : Inv s last) (hp : s.pages[page]? = some p) (hrc : p.refCount = 0)
    (hd : p.dirty = true) (hfl : p.inFlush = false) (hk : p.key.isFlushed = true) :
    Inv { s.updatePage page fun p => { p with inFlush := true, inEviction := true } with
      flushBuffer := s.flushBuffer ++ [page] } last := by
  have hok := hi.pages page p hp
  have hidle : s.flight page = [] := hok.idle hfl
  have hrc' : ¬ 0 < p.refCount := by omega
  have hun : p.writer = .unpinned := by
    by_contra hw
    exact hrc' (hok.pins hw)
  refine hi.change { p with inFlush := true, inEviction := true } hp
    (Change.ofPage (updatePage_pages hp _) rfl rfl rfl (fun h => h) (fun _ h => .inl h)
      (fun page' hne => flight_push_of_ne s fun e => hne e.symm) fun _ _ => rfl) ?_
  have hflight : ({ s.updatePage page fun p => { p with inFlush := true, inEviction := true } with
      flushBuffer := s.flushBuffer ++ [page] } : PangeaStorageServer C).flight page = [none] := by
    have := flight_push s page page hidle
    rwa [if_pos rfl] at this
  refine ⟨hok.last, hok.bytes, fun h => absurd h hrc', fun h => absurd hun h,
    fun h => absurd hun h, nofun, fun _ => ⟨⟨none, hflight⟩, hd, hk⟩, hok.adding, hok.once,
    fun he => ?_, hok.cached, fun hc hb => ?_, hok.clean, fun _ _ _ => ?_, fun stage hst => ?_⟩
  · have hclean : p.dirty = false := (hok.evicting he).2.2.2.2 hk
    rw [hd] at hclean
    cases hclean
  · obtain ⟨hfreed, -⟩ := hok.freed hc hb
    rw [show s.flight page = [some .freed] from hfreed] at hidle
    cases hidle
  · exact hok.waiting hk hd (.inl hidle)
  · cases hflight.symm.trans hst

/-- a page that is on its way to the file is to be evicted behind it -/
theorem mark_inv (hi : Inv s last) (hp : s.pages[page]? = some p) :
    Inv (s.updatePage page fun p => { p with inEviction := true }) last := by
  have hok := hi.pages page p hp
  refine hi.updatePage hp _ rfl (fun h => h) rfl ?_
  exact ⟨hok.last, hok.bytes, hok.pinned, hok.pins, hok.writing, hok.idle, hok.busy, hok.adding,
    hok.once, hok.evicting, hok.cached, fun hc hb => ⟨(hok.freed hc hb).1, (hok.freed hc hb).2.1,
    rfl⟩, hok.clean, hok.waiting, hok.flushed⟩

/-- a page without pins is found clean -/
theorem evict_inv (hi : Inv s last) (hp : s.pages[page]? = some p)
    (hc : s.cache p.key = some page) (hrc : p.refCount = 0) (hfl : p.inFlush = false)
    (hclean : p.key.isFlushed = true → p.dirty = false) (hev : page ∉ s.evicting) :
    Inv { s with evicting := s.evicting ++ [page] } last := by
  have hok := hi.pages page p hp
  have hcount : (s.evicting ++ [page]).count page = 1 := by
    rw [List.count_append, List.count_eq_zero.mpr hev, List.count_singleton_self]
  have hidle : s.flight page = [] := hok.idle hfl
  have hbytes : p.rawBytes ≠ none := fun hb => by
    obtain ⟨hfreed, -⟩ := hok.freed hc hb
    rw [show s.flight page = [some .freed] from hfreed] at hidle
    cases hidle
  refine hi.change _ hp (Change.ofPage (pages_set_self hp) rfl rfl rfl (fun h => h)
    (fun _ h => .inl h) (fun _ _ => rfl) fun page' hne => ?_) ?_
  · show (s.evicting ++ [page]).count page' = _
    rw [List.count_append, List.count_singleton, if_neg, Nat.add_zero]
    simpa using fun e : page = page' => hne e.symm
  · exact ⟨hok.last, hok.bytes, hok.pinned, hok.pins, hok.writing, hok.idle, hok.busy, hok.adding,
      Nat.le_of_eq hcount, fun _ => ⟨hrc, hfl, hbytes, hc, hclean⟩, hok.cached, hok.freed,
      hok.clean, hok.waiting, hok.flushed⟩

/-- a page that was found clean is freed -/
theorem freeEvicted_inv (hi : Inv s last) (hp : s.pages[page]? = some p)
    (hev : page ∈ s.evicting) :
    Inv (({ s with evicting := s.evicting.erase page }.updatePage page fun p =>
      { p with rawBytes := none }).removePage p.key) last := by
  have hok := hi.pages page p hp
  obtain ⟨hrc, hfl, -, hc, hclean⟩ := hok.evicting (List.count_pos_iff.mpr hev)
  have hrc' : ¬ 0 < p.refCount := by
    rw [show p.refCount = 0 from hrc]
    exact Nat.lt_irrefl 0
  have hun : p.writer = .unpinned := by
    by_contra hw
    exact hrc' (hok.pins hw)
  have hcount : (s.evicting.erase page).count page = 0 := by
    rw [List.count_erase_self]
    have := hok.once
    exact Nat.sub_eq_zero_of_le this
  refine hi.change { p with rawBytes := none } hp ⟨updatePage_pages hp _, rfl, fun h => h,
    fun _ h => .inl h, fun key page' hne => ?_, fun key h => ?_, fun _ _ => rfl,
    fun page' hne => List.count_erase_of_ne hne, sets_refl s last p, fun _ h => .inl h,
    fun _ h => .inl h⟩ ?_
  · -- only the entry of this page is removed
    show Function.update s.cache p.key none key = some page' ↔ _
    by_cases hk : key = p.key
    · subst hk
      rw [Function.update_self, show s.cache p.key = some page from hc]
      exact ⟨nofun, fun e => absurd (Option.some.inj e).symm hne⟩
    · rw [Function.update_of_ne hk]
  · have h' : Function.update s.cache p.key none key = some page := h
    by_cases hk : key = p.key
    · rw [hk, Function.update_self] at h'
      cases h'
    · rwa [Function.update_of_ne hk] at h'
  · have hgone : ¬ Function.update s.cache p.key none p.key = some page := by
      rw [Function.update_self]
      nofun
    refine ⟨hok.last, nofun, fun h => absurd h hrc', fun h => absurd hun h, fun h => absurd hun h,
      hok.idle, hok.busy, hok.adding, ?_, fun he => ?_, fun hk hd => ?_, fun hc' => absurd hc' hgone,
      hok.clean, fun hk hd => ?_, hok.flushed⟩
    · exact hcount.trans_le (Nat.zero_le 1)
    · exact absurd hcount (Nat.ne_of_gt he)
    · rw [show p.dirty = false from hclean hk] at hd
      cases hd
    · rw [show p.dirty = false from hclean hk] at hd
      cases hd

end

end PangeaStorageServer
end Netsdb
