import Netsdb.Storage.ScanFlush
import Mathlib.Data.List.Nodup

/-!
# The iterators of a scan

* `FetchOk`, `fetchStep_ok`   a call of `getPage` comes to the page it was called for;
* `CacheIterOk`, `FileIterOk` what an iterator has returned and what it still has to return;
* `entriesFrom_next`, `idsAt_succ`  what is left behind the entry or the page that is returned.
-/

set_option linter.unusedSectionVars false

namespace Netsdb
variable {C : Type*}

/-! ## The server during a scan -/

namespace PangeaStorageServer
section
variable {s s' : PangeaStorageServer C} {set : SetKey} {u u' : UserSet C}

/-- pages keep their key and their memory -/
theorem Scannable.updatePage (h : Scannable s set u) (page : Nat) (f : PDBPage C → PDBPage C)
    (hf : ∀ p, (f p).key = p.key ∧ (f p).rawBytes = p.rawBytes) :
    Scannable (s.updatePage page f) set u := by
  have hget : ∀ (q : Nat) (r : PDBPage C), (s.updatePage page f).pages[q]? = some r →
      ∃ r₀, s.pages[q]? = some r₀ ∧ r.key = r₀.key ∧ r.rawBytes = r₀.rawBytes := by
    intro q r hr
    rw [PangeaStorageServer.updatePage, List.getElem?_modify] at hr
    obtain ⟨r₀, hr₀, he⟩ := Option.map_eq_some_iff.mp hr
    refine ⟨r₀, hr₀, ?_⟩
    split at he
    · rw [← he]
      exact hf r₀
    · rw [← he]
      exact ⟨rfl, rfl⟩
  refine ⟨h.found, h.ordered, fun id q hq => ?_, h.listed, fun q r hr hk hne => ?_,
    fun q pg r pp hc hpg hk => ?_, fun q hq => ?_⟩
  · obtain ⟨r, hr, hk⟩ := h.cached id q hq
    refine ⟨if page = q then f r else r, ?_, ?_⟩
    · rw [PangeaStorageServer.updatePage, List.getElem?_modify, hr]
      rfl
    · split
      · exact (hf r).1.trans hk
      · exact hk
  · obtain ⟨r₀, hr₀, hk₀, hb₀⟩ := hget q r hr
    obtain ⟨fl, hfl, hc, hok⟩ := h.flights q r₀ hr₀ (by rw [← hk₀]; exact hk) hne
    refine ⟨fl, hfl, by rw [hk₀]; exact hc, ?_⟩
    rcases fl with _ | (_ | _ | _ | _)
    all_goals
      simp only [UserSet.StageOk, hk₀, hb₀] at hok ⊢
      try exact hok
  · obtain ⟨r₀, hr₀, hk₀, -⟩ := hget pg pp hpg
    rw [hk₀] at hk ⊢
    exact h.appended q pg r r₀ hc hr₀ hk
  · rw [PangeaStorageServer.updatePage, List.length_modify] at hq
    exact h.known q hq

/-- a new page, which gets into the cache only if there is none of its key -/
theorem Scannable.pushPage (h : Scannable s set u) (p : PDBPage C) :
    Scannable ({ s with pages := s.pages ++ [p] }.cachePage p.key s.pages.length) set u := by
  have hpages : ({ s with pages := s.pages ++ [p] }.cachePage p.key s.pages.length).pages =
      s.pages ++ [p] := by
    unfold cachePage
    split <;> rfl
  have hsets : ({ s with pages := s.pages ++ [p] }.cachePage p.key s.pages.length).sets =
      s.sets := by
    unfold cachePage
    split <;> rfl
  have hflight : ∀ q, ({ s with pages := s.pages ++ [p] }.cachePage p.key s.pages.length).flight q =
      s.flight q := by
    intro q
    unfold cachePage
    split <;> rfl
  have hconsumers : ({ s with pages := s.pages ++ [p] }.cachePage p.key
      s.pages.length).flushConsumers = s.flushConsumers := by
    unfold cachePage
    split <;> rfl
  have hkeep : ∀ key q, s.cache key = some q →
      ({ s with pages := s.pages ++ [p] }.cachePage p.key s.pages.length).cache key = some q := by
    intro key q hq
    unfold cachePage
    split
    · exact hq
    · next hn =>
      refine (Function.update_of_ne ?_ _ _).trans hq
      rintro rfl
      exact hn (by rw [show ({ s with pages := s.pages ++ [p] } : PangeaStorageServer C).cache p.key =
        some q from hq]; rfl)
  have hnew : ∀ key q,
      ({ s with pages := s.pages ++ [p] }.cachePage p.key s.pages.length).cache key = some q →
        s.cache key = some q ∨ (key = p.key ∧ q = s.pages.length) := by
    intro key q hq
    unfold cachePage at hq
    split at hq
    · exact .inl hq
    · have hq' : Function.update s.cache p.key (some s.pages.length) key = some q := hq
      by_cases hk : key = p.key
      · rw [hk, Function.update_self] at hq'
        exact .inr ⟨hk, (Option.some.inj hq').symm⟩
      · rw [Function.update_of_ne hk] at hq'
        exact .inl hq'
  generalize ({ s with pages := s.pages ++ [p] }.cachePage p.key s.pages.length) = s' at *
  have hget : ∀ (q : Nat) (r : PDBPage C), s'.pages[q]? = some r →
      q = s.pages.length ∨ s.pages[q]? = some r := by
    intro q r hr
    rw [hpages] at hr
    rcases Nat.lt_trichotomy q s.pages.length with hlt | rfl | hgt
    · rw [List.getElem?_append_left hlt] at hr
      exact .inr hr
    · exact .inl rfl
    · rw [List.getElem?_eq_none (by simp; omega)] at hr
      cases hr
  have hput : ∀ (q : Nat) (r : PDBPage C), s.pages[q]? = some r → s'.pages[q]? = some r := by
    intro q r hr
    obtain ⟨hlt, -⟩ := List.getElem?_eq_some_iff.mp hr
    rw [hpages, List.getElem?_append_left hlt, hr]
  have hnone : s.flight s.pages.length = [] := h.known _ (Nat.le_refl _)
  refine ⟨by rw [hsets]; exact h.found, h.ordered, fun id q hq => ?_, fun id hl => ?_,
    fun q r hr hk hne => ?_, fun q pg r pp hc hpg hk => ?_, fun q hq => ?_⟩
  · obtain hq | ⟨hk, rfl⟩ := hnew _ q hq
    · obtain ⟨r, hr, hk⟩ := h.cached id q hq
      exact ⟨r, hput q r hr, hk⟩
    · exact ⟨p, by rw [hpages, List.getElem?_concat_length], hk.symm⟩
  · obtain ⟨q, hq, hun⟩ := h.listed id hl
    exact ⟨q, hkeep _ q hq, by rw [hflight]; exact hun⟩
  · rw [hflight] at hne ⊢
    obtain rfl | hr := hget q r hr
    · exact absurd hnone hne
    · obtain ⟨f, hf, hc, hok⟩ := h.flights q r hr hk hne
      exact ⟨f, hf, hkeep _ q hc, hok⟩
  · rw [hconsumers] at hc
    obtain rfl | hr := hget pg pp hpg
    · exact absurd hnone (flight_ne_of_consumer hc)
    · exact h.appended q pg r pp hc hr hk
  · rw [hpages, List.length_append] at hq
    rw [hflight]
    exact h.known q (by omega)

/-- the table loses entries of flushed pages, or nothing is changed but `isPinned` -/
theorem Scannable.updateSet (h : Scannable s set u) (hfile : u'.file = u.file)
    (hsub : u'.dirtyPagesInPageCache.Sublist u.dirtyPagesInPageCache)
    (hl : ∀ id, u.ListedIn id → u'.ListedIn id) : Scannable (s.updateSet set u') set u' := by
  have hin : ∀ id, u'.InFile id → u.InFile id := fun id h => by
    unfold UserSet.InFile at h
    rwa [hfile] at h
  refine ⟨Function.update_self .., ⟨h.ordered.table.sublist (hsub.map _), by
    rw [hfile]; exact h.ordered.once, fun id k hm hk => by
    rw [hfile]; exact h.ordered.flushed id k (hsub.mem hm) hk⟩, h.cached, fun id hlid => ?_,
    fun q r hr hk hne => ?_, fun q pg r pp hc hpg hk => ?_, h.known⟩
  · obtain ⟨k, hm, hk⟩ := hlid
    exact h.listed id ⟨k, hsub.mem hm, hk⟩
  · obtain ⟨f, hf, hc, hok⟩ := h.flights q r hr hk hne
    exact ⟨f, hf, hc, StageOk_mono hok (hl _) (hin _)⟩
  · rw [hfile]
    exact h.appended q pg r pp hc hpg hk

/-! ## Fetching a page -/

/-- the call is about the page of this id -/
def FetchOk (u : UserSet C) (id : Nat) : Fetch → Prop
  | .lookup pageId place => pageId = id ∧
      ∃ q i c, place = some (q, i) ∧ u.file.load q i = some (id, c)
  | .load q i => ∃ c, u.file.load q i = some (id, c)
  | .got page => page = some id

theorem FetchOk.mono {id : Nat} {f : Fetch} (h : FetchOk u id f)
    (hl : ∀ q i e, u.file.load q i = some e → u'.file.load q i = some e) : FetchOk u' id f := by
  match f, h with
  | .lookup _ _, ⟨he, q, i, c, hp, hload⟩ => exact ⟨he, q, i, c, hp, hl _ _ _ hload⟩
  | .load _ _, ⟨c, hload⟩ => exact ⟨c, hl _ _ _ hload⟩
  | .got _, h => exact h

theorem cachedId_of_cache (h : Scannable s set u) {id page : Nat}
    (hc : s.cache ⟨set, id⟩ = some page) : s.cachedId ⟨set, id⟩ = some id := by
  obtain ⟨p, hp, hk⟩ := h.cached id page hc
  rw [cachedId, hc, Option.bind_some, hp, Option.map_some, hk]

/-- **A step of a fetch.** -/
theorem fetchStep_ok [Inhabited C] (h : Scannable s set u) {id : Nat} {f f' : Fetch}
    (hf : FetchOk u id f) (hs : s.fetchStep set f = some (s', f')) :
    Scannable s' set u ∧ FetchOk u id f' := by
  match f, hf with
  | .lookup pageId place, ⟨hid, q, i, c, hplace, hload⟩ =>
    subst hid hplace
    obtain ⟨t, ht, he⟩ := Option.map_eq_some_iff.mp hs
    obtain ⟨rfl, rfl⟩ := Prod.mk.inj he
    unfold getPage at ht
    split at ht
    · cases hc : s.cache ⟨set, pageId⟩ with
      | some page =>
        rw [hc] at ht
        rw [← Option.some.inj ht]
        refine ⟨h.updatePage page _ fun _ => ⟨rfl, rfl⟩, ?_⟩
        rw [if_pos Option.isSome_some]
        exact cachedId_of_cache h hc
      | none =>
        rw [hc] at ht
        dsimp only [Option.orElse_some] at ht
        have hn : ¬ (none : Option Nat).isSome = true := Bool.false_ne_true
        rw [← Option.some.inj ht, if_neg hn]
        exact ⟨⟨h.found, h.ordered, h.cached, h.listed, h.flights, h.appended, h.known⟩, c, hload⟩
    · cases ht
  | .load q i, ⟨c, hload⟩ =>
    obtain ⟨t, ht, he⟩ := Option.map_eq_some_iff.mp hs
    obtain ⟨rfl, rfl⟩ := Prod.mk.inj he
    refine ⟨?_, by rw [h.found, Option.bind_some, hload]; rfl⟩
    unfold loadPage at ht
    split at ht
    · have h' : Scannable { s with loading := s.loading.erase (set, q, i) } set u :=
        ⟨h.found, h.ordered, h.cached, h.listed, h.flights, h.appended, h.known⟩
      dsimp only at ht
      rw [h.found, Option.bind_some, hload] at ht
      rw [← Option.some.inj ht]
      exact h'.pushPage (loadedPage ⟨set, id⟩ c)
    · cases ht

end
end PangeaStorageServer

/-! ## The iterators -/

namespace SetScan

open PangeaStorageServer UserSet

/-- the ids of the first pages of a partition -/
def idsAt (u : UserSet C) (partitionId n : Nat) : List Nat :=
  (List.range n).filterMap fun i => (u.file.load partitionId i).map (·.1)

structure CacheIterOk (u : UserSet C) (table : List Nat) (it : SetCachePageIterator) : Prop where
  rest : table = it.returned ++ (u.entriesFrom it.iter).map (·.1)
  there : ∀ id, it.iter = some id → ∃ k rest, u.entriesFrom it.iter = (id, k) :: rest
  fetch : ∀ f, it.fetch = some f → ∃ id k, it.iter = some id ∧
    (id, k) ∈ u.dirtyPagesInPageCache ∧ k.inCache = false ∧ FetchOk u id f

structure FileIterOk (u : UserSet C) (it : PartitionPageIterator) : Prop where
  le : it.numIteratedPages ≤ it.numPages
  pages : ∀ i < it.numPages, ∃ e, u.file.load it.partitionId i = some e
  returned : it.returned = idsAt u it.partitionId it.numIteratedPages
  fetch : ∀ f, it.fetch = some f → it.numIteratedPages < it.numPages ∧
    ∃ id c, u.file.load it.partitionId it.numIteratedPages = some (id, c) ∧ FetchOk u id f

section
variable {u u' : UserSet C} {table : List Nat}

/-- the entries from one on, as ids -/
theorem ids_entriesFrom (u : UserSet C) (iter : Option Nat) :
    (u.entriesFrom iter).map (·.1) =
      iter.elim [] fun id => (u.dirtyPagesInPageCache.map (·.1)).dropWhile (· ≠ id) := by
  cases iter with
  | none => rfl
  | some id =>
    show (u.dirtyPagesInPageCache.dropWhile _).map _ = _
    induction u.dirtyPagesInPageCache with
    | nil => rfl
    | cons e l ih =>
      by_cases he : e.1 = id
      · rw [List.dropWhile_cons_of_neg (by simpa using he)]
        simp [he]
      · rw [List.dropWhile_cons_of_pos (by simpa using he), ih]
        simp [he]

theorem dropWhile_append {l l' : List (Nat × FileSearchKey)} {id : Nat} {k : FileSearchKey}
    (h : id ∉ l.map (·.1)) :
    (l ++ (id, k) :: l').dropWhile (fun e => e.1 ≠ id) = (id, k) :: l' := by
  induction l with
  | nil => simp
  | cons e l ih =>
    rw [List.map_cons, List.mem_cons, not_or] at h
    rw [List.cons_append, List.dropWhile_cons_of_pos (by simpa using fun he => h.1 he.symm), ih h.2]

/-- an entry splits a table -/
theorem split_entriesFrom {iter : Option Nat} {id : Nat} {k : FileSearchKey}
    {rest : List (Nat × FileSearchKey)} (h : u.entriesFrom iter = (id, k) :: rest) :
    ∃ front, u.dirtyPagesInPageCache = front ++ (id, k) :: rest := by
  cases iter with
  | none => cases h
  | some id' =>
    refine ⟨u.dirtyPagesInPageCache.takeWhile fun e => e.1 ≠ id', ?_⟩
    rw [← h]
    exact List.takeWhile_append_dropWhile.symm

/-- behind an entry the table goes on with the next one -/
theorem entriesFrom_next (hn : (u.dirtyPagesInPageCache.map (·.1)).Nodup) {iter : Option Nat}
    {id : Nat} {k : FileSearchKey} {rest : List (Nat × FileSearchKey)}
    (h : u.entriesFrom iter = (id, k) :: rest) : u.entriesFrom (u.nextEntry iter) = rest := by
  obtain ⟨front, hl⟩ := split_entriesFrom h
  rw [nextEntry, h, List.tail_cons]
  cases rest with
  | nil => rfl
  | cons e rest =>
    show u.dirtyPagesInPageCache.dropWhile (fun e' => e'.1 ≠ e.1) = e :: rest
    rw [hl] at hn ⊢
    have hsplit : front ++ (id, k) :: e :: rest = (front ++ [(id, k)]) ++ (e.1, e.2) :: rest := by
      simp
    rw [hsplit]
    apply dropWhile_append
    rw [hsplit, List.map_append, List.nodup_append] at hn
    intro hm
    exact hn.2.2 _ hm _ List.mem_cons_self rfl

theorem there_next (hn : (u.dirtyPagesInPageCache.map (·.1)).Nodup) {iter : Option Nat}
    {id : Nat} {k : FileSearchKey} {rest : List (Nat × FileSearchKey)}
    (h : u.entriesFrom iter = (id, k) :: rest) {id' : Nat} (hi : u.nextEntry iter = some id') :
    ∃ k' rest', u.entriesFrom (u.nextEntry iter) = (id', k') :: rest' := by
  rw [entriesFrom_next hn h]
  rw [nextEntry, h, List.tail_cons] at hi
  cases rest with
  | nil => cases hi
  | cons e rest =>
    obtain rfl : e.1 = id' := Option.some.inj hi
    exact ⟨e.2, rest, rfl⟩

theorem idsAt_succ {q n id : Nat} {c : C} (h : u.file.load q n = some (id, c)) :
    idsAt u q (n + 1) = idsAt u q n ++ [id] := by
  rw [idsAt, List.range_succ, List.filterMap_append]
  simp [idsAt, h]

theorem mem_idsAt {q n id : Nat} :
    id ∈ idsAt u q n ↔ ∃ i < n, ∃ c, u.file.load q i = some (id, c) := by
  unfold idsAt
  rw [List.mem_filterMap]
  constructor
  · rintro ⟨i, hi, he⟩
    obtain ⟨⟨id', c⟩, hl, rfl⟩ := Option.map_eq_some_iff.mp he
    exact ⟨i, List.mem_range.mp hi, c, hl⟩
  · rintro ⟨i, hi, c, hl⟩
    exact ⟨i, List.mem_range.mpr hi, by rw [hl]; rfl⟩

theorem nodup_idsAt (ho : u.Ordered) (q n : Nat) : (idsAt u q n).Nodup := by
  unfold idsAt
  refine List.Nodup.filterMap (fun i j id hi hj => ?_) List.nodup_range
  obtain ⟨⟨id', c⟩, hl, rfl⟩ := Option.map_eq_some_iff.mp hi
  obtain ⟨⟨id'', c'⟩, hl', he⟩ := Option.map_eq_some_iff.mp hj
  obtain rfl : id'' = id' := he
  exact (ho.once q i q j _ c c' hl hl').2

/-- a flush leaves the pages of an iterator where they are -/
theorem FileIterOk.mono {it : PartitionPageIterator} (h : FileIterOk u it)
    (hl : ∀ q i e, u.file.load q i = some e → u'.file.load q i = some e) : FileIterOk u' it := by
  refine ⟨h.le, fun i hi => ?_, ?_, fun f hf => ?_⟩
  · obtain ⟨e, he⟩ := h.pages i hi
    exact ⟨e, hl _ _ _ he⟩
  · rw [h.returned]
    unfold idsAt
    apply List.filterMap_congr
    intro i hi
    obtain ⟨e, he⟩ := h.pages i (Nat.lt_of_lt_of_le (List.mem_range.mp hi) h.le)
    rw [he, hl _ _ _ he]
  · obtain ⟨hlt, id, c, hload, hok⟩ := h.fetch f hf
    exact ⟨hlt, id, c, hl _ _ _ hload, hok.mono hl⟩

/-- the entries ahead of the iterator stay, and the one it points at stays flushed -/
theorem CacheIterOk.mono {it : SetCachePageIterator} (h : CacheIterOk u table it)
    (hfrom : (u'.entriesFrom it.iter).map (·.1) = (u.entriesFrom it.iter).map (·.1))
    (hflushed : ∀ id k, it.iter = some id → (id, k) ∈ u.dirtyPagesInPageCache → k.inCache = false →
      ∃ k', (id, k') ∈ u'.dirtyPagesInPageCache ∧ k'.inCache = false)
    (hl : ∀ q i e, u.file.load q i = some e → u'.file.load q i = some e) :
    CacheIterOk u' table it := by
  refine ⟨by rw [hfrom]; exact h.rest, fun id hi => ?_, fun f hf => ?_⟩
  · obtain ⟨k, rest, he⟩ := h.there id hi
    rw [he, List.map_cons] at hfrom
    cases he' : u'.entriesFrom it.iter with
    | nil =>
      rw [he'] at hfrom
      cases hfrom
    | cons e rest' =>
      rw [he', List.map_cons] at hfrom
      have hid : e.1 = id := (List.cons.inj hfrom).1
      exact ⟨e.2, rest', by rw [← hid]⟩
  · obtain ⟨id, k, hi, hm, hk, hok⟩ := h.fetch f hf
    obtain ⟨k', hm', hk'⟩ := hflushed id k hi hm hk
    exact ⟨id, k', hi, hm', hk', hok.mono hl⟩

theorem dropWhile_filter {id id' : Nat} (l : List (Nat × FileSearchKey))
    (hid : id ∉ (l.dropWhile fun e => e.1 ≠ id').map (·.1)) :
    (l.filter fun e => e.1 ≠ id).dropWhile (fun e => e.1 ≠ id') =
      l.dropWhile fun e => e.1 ≠ id' := by
  induction l with
  | nil => rfl
  | cons e l ih =>
    by_cases he : e.1 = id'
    · rw [List.dropWhile_cons_of_neg (by simpa using he)] at hid ⊢
      have hall : ∀ e' ∈ e :: l, e'.1 ≠ id := fun e' hm h' => hid (List.mem_map.mpr ⟨e', hm, h'⟩)
      rw [List.filter_eq_self.mpr fun e' hm => by simpa using hall e' hm,
        List.dropWhile_cons_of_neg (by simpa using he)]
    · rw [List.dropWhile_cons_of_pos (by simpa using he)] at hid ⊢
      by_cases heid : e.1 = id
      · rw [List.filter_cons_of_neg (by simpa using heid)]
        exact ih hid
      · rw [List.filter_cons_of_pos (by simpa using heid),
          List.dropWhile_cons_of_pos (by simpa using he)]
        exact ih hid

/-- an entry behind the iterator can go -/
theorem entriesFrom_filter {id : Nat} {iter : Option Nat}
    (hid : id ∉ (u.entriesFrom iter).map (·.1))
    (htable : u'.dirtyPagesInPageCache = u.dirtyPagesInPageCache.filter fun e => e.1 ≠ id) :
    u'.entriesFrom iter = u.entriesFrom iter := by
  cases iter with
  | none => rfl
  | some id' =>
    show u'.dirtyPagesInPageCache.dropWhile _ = u.dirtyPagesInPageCache.dropWhile _
    rw [htable]
    exact dropWhile_filter _ hid

end

end SetScan

end Netsdb
