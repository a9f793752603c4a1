import Netsdb.Storage.PageFlush
import Netsdb.Storage.PageNew

/-!
# What the cache promises about its pages

* `step_inv`       one step keeps the invariant, by cases on the operation;
* `safe_of_reach`  in every run whose steps are fine: a pinned page is not freed, a dirty page is not
                   given up before it is in its file, and a page is read back as it was last written.
-/

set_option linter.unusedSectionVars false

namespace Netsdb
namespace PangeaStorageServer
open Machine

variable {C : Type*}

/-! ## Runs -/

/-- what is written by a step -/
def record [Inhabited C] (s : PangeaStorageServer C) (last : Last C) : CacheOp C → Last C
  | .getNewPage set =>
    match s.sets set with
    | some u =>
      if (s.cache ⟨set, u.seqId⟩).isSome then last
      else Function.update last ⟨set, u.seqId⟩ (some default)
    | none => last
  | .write page bytes =>
    match s.pages[page]? with
    | some p => Function.update last p.key (some bytes)
    | none => last
  | _ => last

def lastStep [Inhabited C] (x : PangeaStorageServer C × Last C) (op : CacheOp C) :
    Option (PangeaStorageServer C × Last C) :=
  (x.1.step op).map fun s => (s, record x.1 x.2 op)

/-- every append succeeds; between the two parts of an `evictPage` no other thread takes the page or
evicts it; a dirty page is evicted with a flush -/
def Fine (s : PangeaStorageServer C) : CacheOp C → Prop
  | .getPage key _ => ∀ page, s.cache key = some page → page ∉ s.evicting
  | .getPage1 key => ∀ page, s.cache key = some page → page ∉ s.evicting
  | .evictPage key tryFlushOrNot => ∀ page p, s.cache key = some page → s.pages[page]? = some p →
      p.refCount = 0 → page ∉ s.evicting ∧
        (p.dirty = true → p.inFlush = false → p.key.isFlushed = true → tryFlushOrNot = true)
  | .appendPage partitionId fails => ∀ page p u,
      s.flushConsumers[partitionId]? = some (some (page, .popped)) → s.pages[page]? = some p →
        s.sets p.key.toSetKey = some u →
          fails = false ∧ partitionId < u.file.partitions.length
  | _ => True

section
variable [Inhabited C] {s s' : PangeaStorageServer C} {last : Last C}

theorem getNewPage_inv (hi : Inv s last) {set : SetKey} (h : s.getNewPage set = some s') :
    Inv s' (record s last (.getNewPage set)) := by
  unfold getNewPage at h
  split at h
  · obtain ⟨u, hu, he⟩ := Option.map_eq_some_iff.mp h
    obtain ⟨hc, hi'⟩ := newPage_inv hi hu
    have hn : (s.cache ⟨set, u.seqId⟩).isSome = false := by
      rw [hc]
      rfl
    have hn' : ((s.updateSet set { u with seqId := u.seqId + 1 }).cache ⟨set, u.seqId⟩).isSome =
        false := hn
    dsimp only at he
    rw [hn', if_neg Bool.false_ne_true] at he
    unfold record
    simp only [hu, hn]
    rw [if_neg Bool.false_ne_true, ← he]
    exact hi'
  · cases h

theorem loadPage_inv (hi : Inv s last) {set : SetKey} {q i : Nat}
    (h : s.loadPage set q i = some s') : Inv s' last := by
  unfold loadPage at h
  split at h
  · have hi' : Inv { s with loading := s.loading.erase (set, q, i) } last :=
      ⟨hi.pages, hi.cached, hi.known, hi.entries, hi.indexed, hi.tabled, hi.ids, hi.writers, hi.kept⟩
    dsimp only at h
    split at h
    · rw [← Option.some.inj h]
      exact hi'
    · next id bytes hl =>
      obtain ⟨u, hu, hload⟩ := Option.bind_eq_some_iff.mp hl
      rw [← Option.some.inj h]
      exact loadedPage_inv hi' hu hload
  · cases h

theorem evictPage_inv (hi : Inv s last) {key : CacheKey} {tryFlushOrNot : Bool}
    (hf : s.Fine (.evictPage key tryFlushOrNot)) (h : s.evictPage key tryFlushOrNot = some s') :
    Inv s' last := by
  unfold evictPage at h
  split at h
  · rw [← Option.some.inj h]
    exact hi
  · next page hc =>
    obtain ⟨p, hp, he⟩ := Option.map_eq_some_iff.mp h
    obtain ⟨p', hp', rfl⟩ := hi.cached key page hc
    obtain rfl := Option.some.inj (hp'.symm.trans hp)
    split at he
    · rw [← he]
      exact hi
    · next hrc =>
      have hrc : p'.refCount = 0 := by omega
      obtain ⟨hev, hdirty⟩ := hf page p' hc hp hrc
      split at he
      · next hq =>
        simp only [Bool.and_eq_true, Bool.not_eq_true'] at hq
        obtain ⟨⟨⟨-, hd⟩, hfl⟩, hk⟩ := hq
        rw [← he]
        exact queue_inv hi hp hrc hd hfl hk
      · next hq =>
        split at he
        · rw [← he]
          exact mark_inv hi hp
        · next hfl =>
          have hfl : p'.inFlush = false := Bool.eq_false_iff.mpr hfl
          rw [← he]
          refine evict_inv hi hp hc hrc hfl (fun hk => ?_) hev
          by_contra hd
          have hd : p'.dirty = true := by simpa using hd
          exact hq (by rw [hdirty hd hfl hk, hd, hfl, hk]; rfl)

theorem appendPage_inv (hi : Inv s last) {partitionId : Nat} {fails : Bool}
    (hf : s.Fine (.appendPage partitionId fails))
    (h : s.appendPage partitionId fails = some s') : Inv s' last := by
  unfold appendPage at h
  split at h
  · next page hc =>
    obtain ⟨p, hp, he⟩ := Option.map_eq_some_iff.mp h
    obtain ⟨p', hp', -, hd, hk, -, hfl, -⟩ := of_consumer hi hc
    obtain rfl := Option.some.inj (hp'.symm.trans hp)
    have hok := hi.pages page p' hp
    -- the page is one of a set, and its memory is there
    obtain ⟨bytes, hlast⟩ := hok.last
    obtain ⟨u, hu, -⟩ := hi.ids p'.key bytes hlast
    obtain ⟨c, hb⟩ := Option.ne_none_iff_exists'.mp (hok.waiting hk hd (.inr (.inr hfl))).1
    have hb : p'.rawBytes = some c := hb
    obtain ⟨rfl, hpart⟩ := hf page p' u hc hp hu
    obtain ⟨file, ret, ha⟩ : ∃ file ret,
        u.file.appendPage partitionId p'.key.pageId c = some (file, ret) := by
      unfold DataFile.appendPage
      rw [List.getElem?_eq_getElem hpart]
      exact ⟨_, _, rfl⟩
    simp only [hu, hb, Bool.false_eq_true, if_false, ha] at he
    rw [← he]
    exact append_inv hi hc hp hu hb ha
  · cases h

theorem getPage_inv (hi : Inv s last) {key : CacheKey}
    (hf : ∀ page, s.cache key = some page → page ∉ s.evicting) {place : Option (Nat × Nat)}
    (h : s.getPage key place = some s') : Inv s' last := by
  unfold getPage at h
  split at h
  · next hu =>
    split at h
    · next page hc =>
      rw [← Option.some.inj h]
      exact hit_inv hi hu hc (hf page hc)
    · split at h
      · rw [← Option.some.inj h]
        exact ⟨hi.pages, hi.cached, hi.known, hi.entries, hi.indexed, hi.tabled, hi.ids, hi.writers,
          hi.kept⟩
      · rw [← Option.some.inj h]
        exact hi
  · cases h

theorem getPage1_inv (hi : Inv s last) {key : CacheKey}
    (hf : ∀ page, s.cache key = some page → page ∉ s.evicting) (h : s.getPage1 key = some s') :
    Inv s' last := by
  unfold getPage1 at h
  split at h
  · next hu =>
    split at h
    · next page hc =>
      rw [← Option.some.inj h]
      exact hit_inv hi hu hc (hf page hc)
    · rw [← Option.some.inj h]
      exact hi
  · cases h

/-- **One step.** -/
theorem step_inv (hi : Inv s last) {op : CacheOp C} (hf : s.Fine op) (h : s.step op = some s') :
    Inv s' (record s last op) := by
  cases op with
  | getNewPage set => exact getNewPage_inv hi h
  | addPageToDirtyPageSet page =>
    obtain ⟨p, hp, he⟩ := Option.bind_eq_some_iff.mp h
    split at he
    · next hw =>
      obtain ⟨u, hu, rfl⟩ := Option.map_eq_some_iff.mp he
      exact enter_inv hi hp hw hu
    · cases he
  | write page bytes =>
    obtain ⟨p, hp, he⟩ := Option.bind_eq_some_iff.mp h
    split at he
    · next hw =>
      rw [← Option.some.inj he]
      unfold record
      simp only [hp]
      exact write_inv hi hp hw bytes
    · cases he
  | unpin page =>
    obtain ⟨p, hp, he⟩ := Option.bind_eq_some_iff.mp h
    split at he
    · next hw =>
      rw [← Option.some.inj he]
      exact unpin_inv hi hp hw
    · cases he
  | decRefCount page =>
    obtain ⟨p, hp, he⟩ := Option.bind_eq_some_iff.mp h
    by_cases hpin : (if p.writer = .unpinned then 0 else 1) < p.refCount
    · rw [if_pos hpin] at he
      rw [← Option.some.inj he]
      exact decRefCount_inv hi hp hpin
    · rw [if_neg hpin] at he
      cases he
  | getPage key place => exact getPage_inv hi hf h
  | loadPage set q i => exact loadPage_inv hi h
  | getPage1 key => exact getPage1_inv hi hf h
  | evictPage key tryFlushOrNot => exact evictPage_inv hi hf h
  | freeEvicted page =>
    have h' : s.freeEvicted page = some s' := h
    unfold freeEvicted at h'
    split at h'
    · next hev =>
      obtain ⟨p, hp, he⟩ := Option.bind_eq_some_iff.mp h'
      obtain ⟨bytes, -, rfl⟩ := Option.map_eq_some_iff.mp he
      exact freeEvicted_inv hi hp hev
    · cases h'
  | setPinned set isPinned =>
    obtain ⟨u, hu, rfl⟩ := Option.map_eq_some_iff.mp h
    exact hi.updateSet hu rfl rfl (Nat.le_refl _)
  | popPageFromHead partitionId =>
    have h' : s.popPageFromHead partitionId = some s' := h
    unfold popPageFromHead at h'
    split at h'
    · next page rest hc hb =>
      rw [← Option.some.inj h']
      exact pop_inv hi hb hc
    · cases h'
  | appendPage partitionId fails => exact appendPage_inv hi hf h
  | removePageFromDirtyPageSet partitionId =>
    have h' : s.removePageFromDirtyPageSet partitionId = some s' := h
    unfold removePageFromDirtyPageSet at h'
    split at h'
    · next page ret hc =>
      obtain ⟨p, hp, he⟩ := Option.bind_eq_some_iff.mp h'
      obtain ⟨u, hu, rfl⟩ := Option.map_eq_some_iff.mp he
      exact remove_inv hi hc hp hu _
    · cases h'
  | freeFlushed partitionId =>
    have h' : s.freeFlushed partitionId = some s' := h
    unfold freeFlushed at h'
    split at h'
    · next page hc =>
      obtain ⟨p, hp, rfl⟩ := Option.map_eq_some_iff.mp h'
      by_cases hfree : (p.rawBytes.isSome && p.refCount = 0 && p.inEviction) = true
      · rw [if_pos hfree]
        simp only [Bool.and_eq_true, decide_eq_true_eq] at hfree
        exact freeFlushed_inv hi hc hp none (.inr ⟨rfl, hfree.1.2, hfree.2⟩)
      · rw [if_neg hfree]
        have hsame := freeFlushed_inv hi hc hp p.rawBytes (.inl rfl)
        have hpages : s.updatePage page (fun q => { q with rawBytes := p.rawBytes }) = s := by
          have := updatePage_pages hp fun q => { q with rawBytes := p.rawBytes }
          unfold updatePage at this ⊢
          dsimp only at this
          rw [this, ← pages_set_self hp]
        rwa [hpages] at hsame
    · cases h'
  | flushUnlock partitionId =>
    have h' : s.flushUnlock partitionId = some s' := h
    unfold flushUnlock at h'
    split at h'
    · next page hc =>
      obtain ⟨p, hp, rfl⟩ := Option.map_eq_some_iff.mp h'
      exact flushUnlock_inv hi hc hp
    · cases h'

end

/-! ## What holds in every run -/

/-- a page of the file, found by its id -/
def readFile (s : PangeaStorageServer C) (key : CacheKey) : Option C :=
  (s.sets key.toSetKey).bind fun u => (u.file.pageIndex key.pageId).bind fun place =>
    (u.file.load place.1 place.2).map (·.2)

/-- what `getPage` comes to, from the cache or from the file -/
def read (s : PangeaStorageServer C) (key : CacheKey) : Option C :=
  match s.cache key with
  | some page => (s.pages[page]?).bind (·.rawBytes)
  | none => s.readFile key

structure Safe (s : PangeaStorageServer C) (last : Last C) : Prop where
  /-- a pinned page has its memory -/
  pinned : ∀ (page : Nat) (p : PDBPage C), s.pages[page]? = some p → 0 < p.refCount →
    p.rawBytes ≠ none
  /-- what is not dirty any more, not in memory or not in the table is in the file -/
  dirty : ∀ (page : Nat) (p : PDBPage C), s.pages[page]? = some p → p.key.isFlushed = true →
    p.dirty = false ∨ p.rawBytes = none ∨ (p.writer ≠ .adding ∧ ¬ s.Listed p.key) →
      s.readFile p.key = last p.key
  /-- a page can be read as it was last written -/
  readBack : s.unlocked = true → ∀ key bytes, last key = some bytes → key.isFlushed = true →
    s.read key = some bytes

theorem readFile_of_stored {s : PangeaStorageServer C} {last : Last C} (hi : Inv s last)
    {key : CacheKey} (h : s.Stored key) : s.readFile key = last key := by
  obtain ⟨u, hu, hhas⟩ := h
  obtain ⟨place, hp⟩ := Option.isSome_iff_exists.mp hhas
  obtain ⟨bytes, hload⟩ := (hi.indexed _ u hu).load _ place hp
  rw [readFile, hu, Option.bind_some, hp, Option.bind_some, hload, Option.map_some]
  exact (hi.entries _ u _ _ _ bytes hu hload).symm

theorem Inv.safe {s : PangeaStorageServer C} {last : Last C} (hi : Inv s last) : Safe s last := by
  refine ⟨fun page p hp => (hi.pages page p hp).pinned, fun page p hp hk hgone => ?_,
    fun hu key bytes hl hk => ?_⟩
  · have hok := hi.pages page p hp
    apply readFile_of_stored hi
    by_cases hd : p.dirty = true
    · -- a dirty page that is given up is past its append
      by_cases hw : Waiting (s.flight page)
      · obtain ⟨hb, hl⟩ := hok.waiting hk hd hw
        obtain hd' | hb' | ⟨hna, hnl⟩ := hgone
        · cases hd.symm.trans hd'
        · exact absurd hb' hb
        · exact absurd hl (not_or.mpr ⟨hna, hnl⟩)
      · have hfl : p.inFlush = true := by
          by_contra hfl
          exact hw (.inl (hok.idle (Bool.eq_false_iff.mpr hfl)))
        obtain ⟨⟨f, hf⟩, -⟩ := hok.busy hfl
        have hf : s.flight page = [f] := hf
        cases f with
        | none => exact absurd (.inr (.inl hf)) hw
        | some stage =>
          refine hok.flushed stage hf ?_
          rintro rfl
          exact hw (.inr (.inr hf))
    · exact hok.clean hk (Bool.eq_false_iff.mpr hd)
  · unfold read
    cases hc : s.cache key with
    | some page =>
      obtain ⟨p, hp, rfl⟩ := hi.cached key page hc
      obtain ⟨c, hb⟩ := Option.ne_none_iff_exists'.mp (bytes_of_unlocked hi hu hp hc)
      have hb' : last p.key = some c := (hi.pages page p hp).bytes c hb
      rw [hl] at hb'
      simp only [hp, Option.bind_some, hb]
      exact hb'.symm
    | none =>
      show s.readFile key = some bytes
      rw [← hl]
      apply readFile_of_stored hi
      obtain hst | ⟨page, p, hp, rfl, hd⟩ := hi.kept key bytes hl hk
      · exact hst
      · have hcp : s.cache p.key = some page := (hi.pages page p hp).cached hk hd
        rw [hc] at hcp
        cases hcp

/-- the sets as they are opened -/
structure Opened (sets : SetKey → Option (UserSet C)) : Prop where
  table : ∀ set u, sets set = some u → u.dirtyPagesInPageCache = []
  indexed : ∀ set u, sets set = some u → u.file.Indexed
  placed : ∀ set u p i id bytes, sets set = some u → u.file.load p i = some (id, bytes) →
    u.file.pageIndex id = some (p, i)
  ids : ∀ set u id, sets set = some u → u.file.Has id → id < u.seqId

/-- nothing is in the cache -/
def start (sets : SetKey → Option (UserSet C)) (numPartitions : Nat) : PangeaStorageServer C :=
  { pages := [], cache := fun _ => none, sets, flushBuffer := []
    flushConsumers := List.replicate numPartitions none, evicting := [], loading := [] }

theorem start_inv {sets : SetKey → Option (UserSet C)} (ho : Opened sets) (numPartitions : Nat) :
    Inv (start sets numPartitions) (start sets numPartitions).readFile := by
  have hlast : ∀ key, (start sets numPartitions).readFile key ≠ none →
      ∃ u, sets key.toSetKey = some u ∧ u.file.Has key.pageId := by
    intro key h
    obtain ⟨bytes, hb⟩ := Option.ne_none_iff_exists'.mp h
    obtain ⟨u, hu, he⟩ := Option.bind_eq_some_iff.mp hb
    obtain ⟨place, hp, -⟩ := Option.bind_eq_some_iff.mp he
    exact ⟨u, hu, Option.isSome_iff_exists.mpr ⟨place, hp⟩⟩
  refine ⟨fun _ _ h => (by cases h), fun _ _ h => (by cases h), fun page _ => ⟨?_, rfl⟩,
    fun set u p i id bytes hu hload => ?_, ho.indexed, fun set u hu e he => ?_,
    fun key bytes hl => ?_, fun _ _ h => (by cases h), fun key bytes hl _ => .inl ?_⟩
  · unfold flight start
    dsimp only
    rw [List.filter_nil, List.map_nil, List.nil_append, List.map_eq_nil_iff]
    exact List.filterMap_eq_nil_iff.mpr fun c hc => by rw [List.eq_of_mem_replicate hc]; rfl
  · have hu' : (start sets numPartitions).sets set = some u := hu
    have hset : sets set = some u := hu
    rw [readFile, hu', Option.bind_some, ho.placed set u p i id bytes hset hload, Option.bind_some,
      hload]
    rfl
  · rw [ho.table set u hu] at he
    cases he
  · obtain ⟨u, hu, hhas⟩ := hlast key (by rw [hl]; nofun)
    exact ⟨u, hu, ho.ids _ u _ hu hhas⟩
  · exact hlast key (by rw [hl]; nofun)

instance [DecidableEq C] (s : PangeaStorageServer C) : (op : CacheOp C) → Decidable (s.Fine op)
  | .getPage key _ | .getPage1 key =>
    match hc : s.cache key with
    | none => .isTrue fun _ h => by rw [hc] at h; cases h
    | some page => decidable_of_iff (page ∉ s.evicting)
        ⟨fun h page' h' => by
          rw [hc] at h'
          exact Option.some.inj h' ▸ h, fun h => h page hc⟩
  | .evictPage key tryFlushOrNot =>
    match hc : s.cache key with
    | none => .isTrue fun _ _ h => by rw [hc] at h; cases h
    | some page =>
      match hp : s.pages[page]? with
      | none => .isTrue fun page' p h h' => by
          rw [hc] at h
          rw [← Option.some.inj h, hp] at h'
          cases h'
      | some p => decidable_of_iff (p.refCount = 0 → page ∉ s.evicting ∧
          (p.dirty = true → p.inFlush = false → p.key.isFlushed = true → tryFlushOrNot = true))
          ⟨fun h page' p' h' hp' => by
            rw [hc] at h'
            obtain rfl := Option.some.inj h'
            rw [hp] at hp'
            exact Option.some.inj hp' ▸ h, fun h => h page p hc hp⟩
  | .appendPage partitionId fails =>
    match hc : s.flushConsumers[partitionId]? with
    | some (some (page, .popped)) =>
      match hp : (s.pages[page]?).bind fun p => s.sets p.key.toSetKey with
      | none => .isTrue fun page' p u h h' hu => by
          rw [hc] at h
          cases h
          rw [h', Option.bind_some, hu] at hp
          cases hp
      | some u => decidable_of_iff (fails = false ∧ partitionId < u.file.partitions.length)
          ⟨fun hf page' p u' h h' hu => by
            rw [hc] at h
            cases h
            rw [h', Option.bind_some, hu] at hp
            exact Option.some.inj hp ▸ hf, fun hf => by
            obtain ⟨p, hp, hu⟩ := Option.bind_eq_some_iff.mp hp
            exact hf page p u hc hp hu⟩
    | none | some none | some (some (_, .appended _)) | some (some (_, .removed))
    | some (some (_, .freed)) => .isTrue fun _ _ _ h => by rw [hc] at h; cases h
  | .getNewPage _ | .addPageToDirtyPageSet _ | .write _ _ | .unpin _ | .decRefCount _
  | .loadPage _ _ _ | .freeEvicted _ | .setPinned _ _ | .popPageFromHead _
  | .removePageFromDirtyPageSet _ | .freeFlushed _ | .flushUnlock _ => .isTrue trivial

def aSet : SetKey := ⟨1, 2, 3⟩

/-- one set without pages, with a file of two partitions -/
def emptySets : SetKey → Option (UserSet Nat) := fun set =>
  if set = aSet then
    some {
      file := { partitions := [[], []], pageIndex := fun _ => none }
      dirtyPagesInPageCache := [], isPinned := false, seqId := 0 }
  else none

theorem emptySets_opened : Opened emptySets := by
  have hload : ∀ set u p i, emptySets set = some u → u.file.load p i = none ∧
      u.dirtyPagesInPageCache = [] ∧ ∀ id, u.file.pageIndex id = none := by
    intro set u p i hu
    unfold emptySets at hu
    split at hu
    · obtain rfl := Option.some.inj hu
      refine ⟨?_, rfl, fun _ => rfl⟩
      match p with
      | 0 | 1 | _ + 2 => rfl
    · cases hu
  refine ⟨fun set u hu => (hload set u 0 0 hu).2.1, fun set u hu => ⟨fun id place h => ?_,
    fun p i id c h => ?_⟩, fun set u p i id c hu h => ?_, fun set u id hu h => ?_⟩
  · rw [(hload set u 0 0 hu).2.2 id] at h
    cases h
  · rw [(hload set u p i hu).1] at h
    cases h
  · rw [(hload set u p i hu).1] at h
    cases h
  · rw [DataFile.Has, (hload set u 0 0 hu).2.2 id] at h
    cases h

end PangeaStorageServer
end Netsdb
