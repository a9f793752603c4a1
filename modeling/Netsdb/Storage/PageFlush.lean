import Netsdb.Storage.PageFrame

/-!
# The flush consumer

* `of_consumer`    what is known of the page of a consumer;
* `pop_inv`, `append_inv`, `remove_inv`, `freeFlushed_inv`, `flushUnlock_inv`  its steps, each with an
                   append that has succeeded.
-/

set_option linter.unusedSectionVars false

namespace Netsdb
namespace PangeaStorageServer

variable {C : Type*}

variable {s : PangeaStorageServer C} {last : Last C} {page : Nat} {p : PDBPage C}

/-- a page on its way is one of the pages -/
theorem page_of_flight (hi : Inv s last) (h : s.flight page ≠ []) :
    ∃ p, s.pages[page]? = some p ∧ p.inFlush = true := by
  have hlt : page < s.pages.length := by
    by_contra hge
    exact h (hi.known page (Nat.le_of_not_lt hge)).1
  refine ⟨s.pages[page], List.getElem?_eq_getElem hlt, ?_⟩
  by_contra hf
  exact h ((hi.pages page _ (List.getElem?_eq_getElem hlt)).idle (Bool.eq_false_iff.mpr hf))

/-- what is known of the page of a consumer -/
theorem of_consumer (hi : Inv s last) {partitionId : Nat} {stage : FlushStage}
    (hc : s.flushConsumers[partitionId]? = some (some (page, stage))) :
    ∃ p, s.pages[page]? = some p ∧ p.inFlush = true ∧ p.dirty = true ∧ p.key.isFlushed = true ∧
      p.writer = .unpinned ∧ s.flight page = [some stage] ∧
      ∀ c', (s.setConsumer partitionId c').flight page = ((held page c').map some).toList := by
  obtain ⟨p, hp, hfl⟩ := page_of_flight hi (flight_ne_of_consumer hc)
  have hok := hi.pages page p hp
  obtain ⟨⟨f, hf⟩, hd, hk⟩ := hok.busy hfl
  have hun : p.writer = .unpinned := by
    by_contra hw
    have hfl' : p.inFlush = false := (hok.writing hw).2
    rw [hfl] at hfl'
    cases hfl'
  obtain ⟨rfl, -⟩ := flight_setConsumer hc hf none
  exact ⟨p, hp, hfl, hd, hk, hun, hf, fun c' => (flight_setConsumer hc hf c').2⟩

/-- a consumer leaves the pages of the others where they are -/
theorem flight_others {partitionId : Nat} {stage : FlushStage}
    (hc : s.flushConsumers[partitionId]? = some (some (page, stage)))
    (c' : Option FlushStage) (page' : Nat) (hne : page' ≠ page) :
    (s.setConsumer partitionId (c'.map fun stage => (page, stage))).flight page' =
      s.flight page' := by
  apply flight_setConsumer_of_ne hc (held_of_ne (fun e => hne e.symm) stage)
  cases c' with
  | none => rfl
  | some stage' => exact held_of_ne (fun e => hne e.symm) stage'

theorem pop_inv (hi : Inv s last) {partitionId : Nat} {rest : List Nat}
    (hb : s.flushBuffer = page :: rest) (hc : s.flushConsumers[partitionId]? = some none) :
    Inv ({ s with flushBuffer := rest }.setConsumer partitionId (some (page, .popped))) last := by
  have hmem : s.flight page ≠ [] := by
    unfold flight
    rw [hb, List.filter_cons_of_pos (by simp)]
    nofun
  obtain ⟨p, hp, hfl⟩ := page_of_flight hi hmem
  have hok := hi.pages page p hp
  obtain ⟨⟨f, hf⟩, hd, hk⟩ := hok.busy hfl
  obtain ⟨rfl, hflight⟩ := flight_pop hb hc hf
  refine hi.change _ hp (Change.ofPage (pages_set_self hp) rfl rfl rfl (fun h => h)
    (fun _ h => .inl h) (fun page' hne => flight_pop_of_ne hb hc fun e => hne e.symm)
    fun _ _ => rfl) ?_
  refine ⟨hok.last, hok.bytes, hok.pinned, hok.pins, hok.writing, fun h => ?_,
    fun _ => ⟨⟨_, hflight⟩, hd, hk⟩, hok.adding, hok.once, hok.evicting, hok.cached,
    fun hc' hb' => ?_, hok.clean, fun _ _ _ => hok.waiting hk hd (.inr (.inl hf)),
    fun stage hst hne => ?_⟩
  · cases hfl.symm.trans h
  · obtain ⟨hfreed, -⟩ := hok.freed hc' hb'
    cases hf.symm.trans hfreed
  · cases hflight.symm.trans hst
    exact absurd rfl hne

/-- the page is appended -/
theorem append_inv (hi : Inv s last) {partitionId : Nat}
    (hc : s.flushConsumers[partitionId]? = some (some (page, .popped)))
    (hp : s.pages[page]? = some p) {u : UserSet C} (hu : s.sets p.key.toSetKey = some u) {bytes : C}
    (hb : p.rawBytes = some bytes) {file : DataFile C} {ret : Nat}
    (ha : u.file.appendPage partitionId p.key.pageId bytes = some (file, ret)) :
    Inv ((s.updateSet p.key.toSetKey { u with file }).setConsumer partitionId
      (some (page, .appended (some ret)))) last := by
  obtain ⟨p, hp', hfl, hd, hk, hun, hf, hset⟩ := of_consumer hi hc
  obtain rfl := Option.some.inj (hp.symm.trans hp')
  have hok := hi.pages page p hp
  have hlast : last p.key = some bytes := hok.bytes bytes hb
  have hflight := hset (some (page, .appended (some ret)))
  rw [held_self] at hflight
  have hle : SetLe last p p.key.toSetKey u { u with file } := by
    refine ⟨Nat.le_refl _, fun q i id c hload => ?_, fun h => h.appendPage ha,
      fun id h => h.appendPage ha, fun h => h⟩
    rw [DataFile.load_appendPage ha] at hload
    split at hload
    · obtain ⟨rfl, rfl⟩ := Prod.mk.inj (Option.some.inj hload)
      exact .inr ⟨hun, rfl, hlast⟩
    · exact .inl hload
  have hchange : Change s ((s.updateSet p.key.toSetKey { u with file }).setConsumer partitionId
      (some (page, .appended (some ret)))) last page p p := by
    refine ⟨pages_set_self hp, rfl, fun h => h, fun _ h => .inl h, fun _ _ _ => Iff.rfl,
      fun _ h => h, flight_others hc (some (.appended (some ret))), fun _ _ => rfl,
      sets_update hu hle, fun key ⟨v, k, hv, he, hin⟩ => .inl ?_, fun key ⟨v, k, hv, he⟩ => .inl ?_⟩
    · by_cases hkey : key.toSetKey = p.key.toSetKey
      · rw [hkey, hu] at hv
        obtain rfl := Option.some.inj hv
        exact ⟨{ u with file }, k, by rw [hkey]; exact Function.update_self .., he, hin⟩
      · exact ⟨v, k, (Function.update_of_ne hkey _ _).trans hv, he, hin⟩
    · by_cases hkey : key.toSetKey = p.key.toSetKey
      · have hv' : Function.update s.sets p.key.toSetKey (some { u with file }) key.toSetKey =
          some v := hv
        rw [hkey, Function.update_self] at hv'
        obtain rfl := Option.some.inj hv'
        exact ⟨u, k, by rw [hkey]; exact hu, he⟩
      · exact ⟨v, k, (Function.update_of_ne hkey _ _).symm.trans hv, he⟩
  have hstored : ((s.updateSet p.key.toSetKey { u with file }).setConsumer partitionId
      (some (page, .appended (some ret)))).Stored p.key :=
    ⟨{ u with file }, Function.update_self .., DataFile.has_appendPage ha⟩
  refine hi.change _ hp hchange ⟨hok.last, hok.bytes, hok.pinned, hok.pins, hok.writing, fun h => ?_,
    fun _ => ⟨⟨_, hflight⟩, hd, hk⟩, fun hw => ?_, hok.once, hok.evicting, hok.cached,
    fun hc' hb' => ?_, fun _ _ => hstored, fun _ _ hw => ?_, fun _ _ _ => hstored⟩
  · cases hfl.symm.trans h
  · rw [show p.writer = .adding from hw] at hun
    cases hun
  · rw [show p.rawBytes = none from hb'] at hb
    cases hb
  · obtain hw | hw | hw := hw <;> cases hflight.symm.trans hw

/-- the entry of a page leaves the table, or is marked -/
theorem mem_removePageFromDirtyPageSet {u : UserSet C} {pageId : Nat} {place : Option (Nat × Nat)}
    {id : Nat} {k : FileSearchKey}
    (h : (id, k) ∈ (u.removePageFromDirtyPageSet pageId place).dirtyPagesInPageCache) :
    ∃ k', (id, k') ∈ u.dirtyPagesInPageCache := by
  unfold UserSet.removePageFromDirtyPageSet at h
  split at h
  · obtain ⟨e, he, hek⟩ := List.mem_map.mp h
    split at hek
    · next hid =>
      cases hek
      exact ⟨e.2, hid ▸ he⟩
    · exact ⟨k, hek ▸ he⟩
  · exact ⟨k, (List.mem_filter.mp h).1⟩

theorem mem_removePageFromDirtyPageSet_of_ne {u : UserSet C} {pageId : Nat}
    {place : Option (Nat × Nat)} {id : Nat} {k : FileSearchKey} (hne : id ≠ pageId)
    (h : (id, k) ∈ u.dirtyPagesInPageCache) :
    (id, k) ∈ (u.removePageFromDirtyPageSet pageId place).dirtyPagesInPageCache := by
  unfold UserSet.removePageFromDirtyPageSet
  split
  · exact List.mem_map.mpr ⟨_, h, by rw [if_neg hne]⟩
  · exact List.mem_filter.mpr ⟨h, by simpa using hne⟩

theorem removePageFromDirtyPageSet_file (u : UserSet C) (pageId : Nat) (place : Option (Nat × Nat)) :
    (u.removePageFromDirtyPageSet pageId place).file = u.file ∧
      (u.removePageFromDirtyPageSet pageId place).seqId = u.seqId := by
  unfold UserSet.removePageFromDirtyPageSet
  split <;> exact ⟨rfl, rfl⟩

/-- the page leaves the table of dirty pages: it is in the file -/
theorem remove_inv (hi : Inv s last) {partitionId : Nat} {ret : Option Nat}
    (hc : s.flushConsumers[partitionId]? = some (some (page, .appended ret)))
    (hp : s.pages[page]? = some p) {u : UserSet C} (hu : s.sets p.key.toSetKey = some u)
    (place : Option (Nat × Nat)) :
    Inv ((s.updateSet p.key.toSetKey
      (u.removePageFromDirtyPageSet p.key.pageId place)).setConsumer partitionId
      (some (page, .removed))) last := by
  obtain ⟨p, hp', hfl, hd, hk, hun, hf, hset⟩ := of_consumer hi hc
  obtain rfl := Option.some.inj (hp.symm.trans hp')
  have hok := hi.pages page p hp
  have hcache : s.cache p.key = some page := hok.cached hk hd
  have hstored : s.Stored p.key := hok.flushed _ hf nofun
  have hflight := hset (some (page, .removed))
  rw [held_self] at hflight
  obtain ⟨hfile, hseq⟩ := removePageFromDirtyPageSet_file u p.key.pageId place
  have hle : SetLe last p p.key.toSetKey u
      (u.removePageFromDirtyPageSet p.key.pageId place) := by
    refine ⟨Nat.le_of_eq hseq.symm, fun q i id c hload => .inl ?_, fun h => ?_, fun id h => ?_,
      fun h e he => ?_⟩
    · rwa [hfile] at hload
    · rwa [hfile]
    · rwa [hfile]
    · obtain ⟨k', hk'⟩ := mem_removePageFromDirtyPageSet (k := e.2) he
      rw [hseq]
      exact h (e.1, k') hk'
  have hchange : Change s ((s.updateSet p.key.toSetKey
      (u.removePageFromDirtyPageSet p.key.pageId place)).setConsumer partitionId
      (some (page, .removed))) last page p p := by
    refine ⟨pages_set_self hp, rfl, fun h => h, fun _ h => .inl h, fun _ _ _ => Iff.rfl,
      fun _ h => h, flight_others hc (some .removed), fun _ _ => rfl,
      sets_update hu hle, fun key ⟨v, k, hv, he, hin⟩ => ?_, fun key ⟨v, k, hv, he⟩ => .inl ?_⟩
    · by_cases hkey : key = p.key
      · exact .inr ⟨hkey, hkey ▸ hcache⟩
      by_cases hkset : key.toSetKey = p.key.toSetKey
      · rw [hkset, hu] at hv
        obtain rfl := Option.some.inj hv
        have hid : key.pageId ≠ p.key.pageId := fun hid => hkey (CacheKey.ext' hkset hid)
        exact .inl ⟨_, k, by rw [hkset]; exact Function.update_self ..,
          mem_removePageFromDirtyPageSet_of_ne hid he, hin⟩
      · exact .inl ⟨v, k, (Function.update_of_ne hkset _ _).trans hv, he, hin⟩
    · by_cases hkset : key.toSetKey = p.key.toSetKey
      · have hv' : Function.update s.sets p.key.toSetKey
          (some (u.removePageFromDirtyPageSet p.key.pageId place)) key.toSetKey = some v := hv
        rw [hkset, Function.update_self] at hv'
        obtain rfl := Option.some.inj hv'
        obtain ⟨k', hk'⟩ := mem_removePageFromDirtyPageSet he
        exact ⟨u, k', by rw [hkset]; exact hu, hk'⟩
      · exact ⟨v, k, (Function.update_of_ne hkset _ _).symm.trans hv, he⟩
  refine hi.change _ hp hchange ⟨hok.last, hok.bytes, hok.pinned, hok.pins, hok.writing, fun h => ?_,
    fun _ => ⟨⟨_, hflight⟩, hd, hk⟩, fun hw => ?_, hok.once, hok.evicting, hok.cached,
    fun hc' hb' => ?_, fun _ _ => hchange.stored hstored, fun _ _ hw => ?_,
    fun _ _ _ => hchange.stored hstored⟩
  · cases hfl.symm.trans h
  · rw [show p.writer = .adding from hw] at hun
    cases hun
  · obtain ⟨hfreed, -⟩ := hok.freed hc' hb'
    cases hf.symm.trans hfreed
  · obtain hw | hw | hw := hw <;> cases hflight.symm.trans hw

/-- the memory of the page is freed, when nobody has pinned it again -/
theorem freeFlushed_inv (hi : Inv s last) {partitionId : Nat}
    (hc : s.flushConsumers[partitionId]? = some (some (page, .removed)))
    (hp : s.pages[page]? = some p) (bytes : Option C)
    (hbytes : bytes = p.rawBytes ∨ (bytes = none ∧ p.refCount = 0 ∧ p.inEviction = true)) :
    Inv ((s.updatePage page fun p => { p with rawBytes := bytes }).setConsumer partitionId
      (some (page, .freed))) last := by
  obtain ⟨p, hp', hfl, hd, hk, hun, hf, hset⟩ := of_consumer hi hc
  obtain rfl := Option.some.inj (hp.symm.trans hp')
  have hok := hi.pages page p hp
  have hcache : s.cache p.key = some page := hok.cached hk hd
  have hstored : s.Stored p.key := hok.flushed _ hf nofun
  have hold : p.rawBytes ≠ none := fun hb => by
    obtain ⟨hfreed, -⟩ := hok.freed hcache hb
    cases hf.symm.trans hfreed
  have hflight := hset (some (page, .freed))
  rw [held_self] at hflight
  refine hi.change { p with rawBytes := bytes } hp
    (Change.ofPage (updatePage_pages hp _) rfl rfl rfl (fun h => h) (fun _ h => .inl h)
      (fun page' hne => ?_) fun _ _ => rfl) ?_
  · exact flight_others hc (some .freed) page' hne
  refine ⟨hok.last, fun b hb => ?_, fun h => ?_, hok.pins, hok.writing, fun h => ?_,
    fun _ => ⟨⟨_, hflight⟩, hd, hk⟩, hok.adding, hok.once, fun he => ?_, hok.cached,
    fun _ hb => ?_, fun _ _ => hstored, fun _ _ hw => ?_, fun _ _ _ => hstored⟩
  · obtain rfl | ⟨rfl, -⟩ := hbytes
    · exact hok.bytes b hb
    · cases hb
  · obtain rfl | ⟨-, hrc, -⟩ := hbytes
    · exact hold
    · exact absurd hrc (Nat.ne_of_gt h)
  · cases hfl.symm.trans h
  · have hfl' : p.inFlush = false := (hok.evicting he).2.1
    rw [hfl] at hfl'
    cases hfl'
  · obtain rfl | ⟨-, hrc, hin⟩ := hbytes
    · exact absurd hb hold
    · exact ⟨hflight, hrc, hin⟩
  · obtain hw | hw | hw := hw <;> cases hflight.symm.trans hw

/-- the consumer is done with the page -/
theorem flushUnlock_inv (hi : Inv s last) {partitionId : Nat}
    (hc : s.flushConsumers[partitionId]? = some (some (page, .freed)))
    (hp : s.pages[page]? = some p) :
    Inv (((if p.refCount = 0 && p.inEviction then s.removePage p.key else s).updatePage page fun p =>
      { p with inFlush := false, dirty := false }).setConsumer partitionId none) last := by
  obtain ⟨p, hp', hfl, hd, hk, hun, hf, hset⟩ := of_consumer hi hc
  obtain rfl := Option.some.inj (hp.symm.trans hp')
  have hok := hi.pages page p hp
  have hcache : s.cache p.key = some page := hok.cached hk hd
  have hstored : s.Stored p.key := hok.flushed _ hf nofun
  have hflight := hset none
  have hcases : (if p.refCount = 0 && p.inEviction then s.removePage p.key else s) =
      { s with cache := (if p.refCount = 0 && p.inEviction then s.removePage p.key else s).cache } := by
    split <;> rfl
  -- what is left in the cache was there, and a page without memory is not
  have hother : ∀ key page', page' ≠ page →
      ((if p.refCount = 0 && p.inEviction then s.removePage p.key else s).cache key = some page' ↔
        s.cache key = some page') := by
    intro key page' hne
    split
    · show Function.update s.cache p.key none key = some page' ↔ _
      by_cases hkey : key = p.key
      · subst hkey
        rw [Function.update_self, hcache]
        exact ⟨nofun, fun e => absurd (Option.some.inj e).symm hne⟩
      · rw [Function.update_of_ne hkey]
    · exact Iff.rfl
  have hself : ∀ key,
      (if p.refCount = 0 && p.inEviction then s.removePage p.key else s).cache key = some page →
        s.cache key = some page ∧ p.rawBytes ≠ none := by
    intro key h
    split at h
    · have h' : Function.update s.cache p.key none key = some page := h
      by_cases hkey : key = p.key
      · rw [hkey, Function.update_self] at h'
        cases h'
      · rw [Function.update_of_ne hkey] at h'
        obtain ⟨q, hq, hqk⟩ := hi.cached key page h'
        rw [hp] at hq
        exact absurd (Option.some.inj hq ▸ hqk.symm) hkey
    · next hcond =>
      refine ⟨h, fun hb => hcond ?_⟩
      obtain ⟨-, hrc, hin⟩ := hok.freed hcache hb
      rw [show p.refCount = 0 from hrc, show p.inEviction = true from hin]
      rfl
  rw [hcases]
  refine hi.change { p with inFlush := false, dirty := false } hp
    ⟨updatePage_pages hp _, rfl, fun h => h, fun _ _ => .inr hstored, hother,
      fun key h => (hself key h).1, fun page' hne => flight_others hc none page' hne,
      fun _ _ => rfl, sets_refl s last p, fun _ h => .inl h, fun _ h => .inl h⟩ ?_
  refine ⟨hok.last, hok.bytes, hok.pinned, hok.pins, fun hw => absurd hun hw, fun _ => hflight,
    nofun, hok.adding, hok.once, fun he => ?_, nofun, fun hc' hb => absurd hb (hself _ hc').2,
    fun _ _ => hstored, nofun, fun _ _ _ => hstored⟩
  have hfl' : p.inFlush = false := (hok.evicting he).2.1
  rw [hfl] at hfl'
  cases hfl'

end PangeaStorageServer
end Netsdb
