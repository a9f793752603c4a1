import Netsdb.Storage.ScanIter

/-!
# What a scan returns

* `ScanOk`          the invariant of a scan, and `step_ok`: each step keeps it;
* `exact_of_reach`  a scan that has finished has returned each page of the set once.
-/

set_option linter.unusedSectionVars false

namespace Netsdb
variable {C : Type*}

namespace SetScan

open PangeaStorageServer UserSet

/-! ## The invariant of a scan -/

/-- some iterator of a partition will have returned the page -/
def Counted (x : SetScan C) (u : UserSet C) (id : Nat) : Prop :=
  ∃ it ∈ x.fileIters, ∃ i < it.numPages, ∃ c, u.file.load it.partitionId i = some (id, c)

/-- `table` are the pages that were in the table when the iterators were made, `members` those of the
set -/
structure ScanOk (members : Nat → Prop) (x : SetScan C) (u : UserSet C) (table : List Nat) :
    Prop where
  scannable : Scannable x.server x.set u
  belongs : ∀ id, members id ↔ (∃ k, (id, k) ∈ u.dirtyPagesInPageCache) ∨ u.InFile id
  distinct : table.Nodup
  ofTable : ∀ id ∈ table, members id
  noIter : x.cacheIter = none → table = []
  iter : ∀ it, x.cacheIter = some it → CacheIterOk u table it
  files : ∀ it ∈ x.fileIters, FileIterOk u it
  partitions : (x.fileIters.map (·.partitionId)).Nodup
  disjoint : ∀ id ∈ table, ¬ x.Counted u id
  early : x.place = .begun ∨ x.place = .cleaned → x.cacheIter = none ∧ x.fileIters = []
  idle : x.place ≠ .scanning → ∀ it, x.cacheIter = some it → it.fetch = none
  counting : ∀ n, x.place = .counting n → table = u.dirtyPagesInPageCache.map (·.1) ∧
    (∀ it ∈ x.fileIters, it.partitionId < n) ∧
    ∀ q < n, ∀ i id c, u.file.load q i = some (id, c) →
      id ∈ table ∨ ∃ it ∈ x.fileIters, it.partitionId = q ∧ i < it.numPages
  scanning : x.place = .scanning → ∀ id, members id → id ∈ table ∨ x.Counted u id

/-- the append of a page of the set succeeds; the set is pinned when an entry that the iterator of the
table has not come past is changed; and no page that is counted in a partition has an entry in the
table -/
def Fine (x : SetScan C) : ScanOp → Prop
  | .flush op => x.server.FlushFine x.set op ∧
      (x.place = .scanning → ∀ u it id, x.userSet = some u → x.cacheIter = some it →
        x.server.removesFrom x.set op = some id →
          u.isPinned = true ∨ id ∉ (u.entriesFrom it.iter).map (·.1))
  | .countPartition => ∀ q u, x.place = .counting q → x.userSet = some u →
      ∀ i id c, u.file.load q i = some (id, c) → id ∉ u.dirtyPagesInPageCache.map (·.1)
  | _ => True

section
variable {members : Nat → Prop} {x y : SetScan C} {u u' : UserSet C} {table : List Nat}

theorem ScanOk.userSet (h : ScanOk members x u table) : x.userSet = some u := h.scannable.found

theorem mem_ids {l : List (Nat × FileSearchKey)} {id : Nat} :
    id ∈ l.map (·.1) ↔ ∃ k, (id, k) ∈ l := by
  rw [List.mem_map]
  constructor
  · rintro ⟨e, he, rfl⟩
    exact ⟨e.2, he⟩
  · rintro ⟨k, hk⟩
    exact ⟨_, hk, rfl⟩

theorem Counted.mono {id : Nat} (h : x.Counted u id)
    (hl : ∀ q i e, u.file.load q i = some e → u'.file.load q i = some e) : x.Counted u' id := by
  obtain ⟨it, hit, i, hi, c, hload⟩ := h
  exact ⟨it, hit, i, hi, c, hl _ _ _ hload⟩

/-- the counted pages were there when they were counted -/
theorem Counted.back {id : Nat} (hfiles : ∀ it ∈ x.fileIters, FileIterOk u it)
    (h : x.Counted u' id)
    (hl : ∀ q i e, u.file.load q i = some e → u'.file.load q i = some e) : x.Counted u id := by
  obtain ⟨it, hit, i, hi, c, hload⟩ := h
  obtain ⟨e, he⟩ := (hfiles it hit).pages i hi
  have he' := hl _ _ _ he
  rw [hload] at he'
  obtain rfl := Option.some.inj he'
  exact ⟨it, hit, i, hi, c, he⟩

/-- while the table is locked or the iterators are in use, the entries ahead of the iterator stay -/
theorem CacheIterOk.flush {it : SetCachePageIterator} (h : CacheIterOk u table it)
    {removed : Option Nat} (hle : FlushLe removed u u')
    (hpin : ∀ id, removed = some id → u.isPinned = true ∨ id ∉ (u.entriesFrom it.iter).map (·.1)) :
    CacheIterOk u' table it := by
  cases removed with
  | none =>
    have htable := hle.table rfl
    refine h.mono ?_ (fun id k _ hm hk => ⟨k, by rw [htable]; exact hm, hk⟩) hle.load
    rw [ids_entriesFrom, ids_entriesFrom, htable]
  | some id =>
    obtain hp | hid := hpin id rfl
    · refine h.mono ?_ (fun id' k _ => hle.flushed hp id' k) hle.load
      rw [ids_entriesFrom, ids_entriesFrom, hle.pinned hp]
    · by_cases hp : u.isPinned = true
      · refine h.mono ?_ (fun id' k _ => hle.flushed hp id' k) hle.load
        rw [ids_entriesFrom, ids_entriesFrom, hle.pinned hp]
      · have htable := hle.erased (Bool.eq_false_iff.mpr hp) id rfl
        have hne : it.iter ≠ some id := by
          intro hi
          obtain ⟨k, rest, he⟩ := h.there id hi
          rw [he] at hid
          exact hid List.mem_cons_self
        refine h.mono (by rw [entriesFrom_filter hid htable]) (fun id' k hi hm hk => ?_)
          hle.load
        refine ⟨k, ?_, hk⟩
        rw [htable]
        refine List.mem_filter.mpr ⟨hm, ?_⟩
        have hne' : id' ≠ id := by
          rintro rfl
          exact hne hi
        simpa using hne'

/-- **A step of a flush consumer.** -/
theorem flush_ok (h : ScanOk members x u table) {server : PangeaStorageServer C}
    {removed : Option Nat} (hs : Scannable server x.set u') (hle : FlushLe removed u u')
    (hlock : x.tableLocked = true → removed = none)
    (hpin : x.place = .scanning → ∀ it id, x.cacheIter = some it → removed = some id →
      u.isPinned = true ∨ id ∉ (u.entriesFrom it.iter).map (·.1)) :
    ScanOk members { x with server } u' table := by
  have hcounting : ∀ n, x.place = .counting n → removed = none := by
    intro n hn
    apply hlock
    rw [tableLocked, hn]
  refine ⟨hs, fun id => ?_, h.distinct, h.ofTable, h.noIter, fun it hit => ?_,
    fun it hit => (h.files it hit).mono hle.load, h.partitions, fun id hid hc => ?_, h.early, h.idle,
    fun n hn => ?_, fun hp id hid => ?_⟩
  · rw [h.belongs id]
    constructor
    · rintro (⟨k, hk⟩ | ⟨q, i, c, hl⟩)
      · exact hle.kept id k hk
      · exact .inr ⟨q, i, c, hle.load _ _ _ hl⟩
    · rintro (⟨k, hk⟩ | ⟨q, i, c, hl⟩)
      · exact .inl (hle.ids id k hk)
      · obtain hl | hk := hle.fresh q i id c hl
        · exact .inr ⟨q, i, c, hl⟩
        · exact .inl hk
  · refine (h.iter it hit).flush hle fun id hid => ?_
    cases hplace : x.place with
    | begun =>
      have hit : x.cacheIter = some it := hit
      cases (h.early (.inl hplace)).1.symm.trans hit
    | cleaned =>
      have hit : x.cacheIter = some it := hit
      cases (h.early (.inr hplace)).1.symm.trans hit
    | counting n => cases (hcounting n hplace).symm.trans hid
    | scanning => exact hpin hplace it id hit hid
  · exact h.disjoint id hid (Counted.back h.files hc hle.load)
  · obtain ⟨ht, hlt, hall⟩ := h.counting n hn
    refine ⟨by rw [hle.table (hcounting n hn)]; exact ht, hlt, fun q hq i id c hl => ?_⟩
    obtain hl | hk := hle.fresh q i id c hl
    · exact hall q hq i id c hl
    · rw [ht]
      exact .inl (mem_ids.mpr hk)
  · exact (h.scanning hp id hid).imp_right fun hc => hc.mono hle.load

theorem setPinned_ok (h : ScanOk members x u table) (isPinned : Bool) :
    ScanOk members (x.updateUserSet { u with isPinned }) { u with isPinned } table :=
  ⟨h.scannable.updateSet rfl (.refl _) fun _ hl => hl, h.belongs, h.distinct, h.ofTable, h.noIter,
    fun it hit => ⟨(h.iter it hit).rest, (h.iter it hit).there, (h.iter it hit).fetch⟩,
    fun it hit => ⟨(h.files it hit).le, (h.files it hit).pages, (h.files it hit).returned,
      (h.files it hit).fetch⟩, h.partitions, h.disjoint, h.early, h.idle, h.counting, h.scanning⟩

theorem clean_ok (h : ScanOk members x u table) (hp : x.place = .begun) :
    ScanOk members { x.updateUserSet u.cleanDirtyPageSet with place := .cleaned }
      u.cleanDirtyPageSet table := by
  obtain ⟨hnone, hfiles⟩ := h.early (.inl hp)
  have htable := h.noIter hnone
  have hs : Scannable (x.server.updateSet x.set u.cleanDirtyPageSet) x.set u.cleanDirtyPageSet :=
    h.scannable.updateSet rfl List.filter_sublist fun id ⟨k, hm, hk⟩ =>
      ⟨k, List.mem_filter.mpr ⟨hm, hk⟩, hk⟩
  refine ⟨hs, fun id => ?_, h.distinct, h.ofTable, h.noIter, fun it hit => ?_, fun it hit => ?_,
    h.partitions, fun id hid => ?_, fun _ => ⟨hnone, hfiles⟩, fun _ => h.idle (by rw [hp]; nofun),
    nofun, nofun⟩
  · rw [h.belongs id]
    constructor
    · rintro (⟨k, hm⟩ | hin)
      · cases hk : k.inCache with
        | true => exact .inl ⟨k, List.mem_filter.mpr ⟨hm, hk⟩⟩
        | false =>
          obtain ⟨q, i, c, -, hl⟩ := h.scannable.ordered.flushed id k hm hk
          exact .inr ⟨q, i, c, hl⟩
      · exact .inr hin
    · rintro (⟨k, hm⟩ | hin)
      · exact .inl ⟨k, (List.mem_filter.mp hm).1⟩
      · exact .inr hin
  · have hit' : x.cacheIter = some it := hit
    rw [hnone] at hit'
    cases hit'
  · have hit' : it ∈ x.fileIters := hit
    rw [hfiles] at hit'
    cases hit'
  · rw [htable] at hid
    cases hid

theorem lock_ok (h : ScanOk members x u table) (hp : x.place = .cleaned) :
    ScanOk members { x with
      place := .counting 0
      cacheIter := u.dirtyPagesInPageCache.head?.map fun e =>
        { iter := some e.1, fetch := none, returned := [] } } u
      (u.dirtyPagesInPageCache.map (·.1)) := by
  obtain ⟨-, hfiles⟩ := h.early (.inr hp)
  have hn := h.scannable.ordered.table
  have hcount : ∀ y : SetScan C, y.fileIters = x.fileIters → ∀ id, ¬ y.Counted u id := by
    rintro y hy id ⟨it, hit, -⟩
    rw [hy, hfiles] at hit
    cases hit
  refine ⟨h.scannable, h.belongs, hn, fun id hid => (h.belongs id).mpr (.inl (mem_ids.mp hid)),
    fun hnone => ?_, fun it hit => ?_, h.files, h.partitions, fun id _ => hcount _ rfl id,
    fun e => ?_, fun _ it hit => ?_, fun n hn => ?_, nofun⟩
  · cases hl : u.dirtyPagesInPageCache with
    | nil => rfl
    | cons e l =>
      have hnone' : u.dirtyPagesInPageCache.head?.map _ = none := hnone
      rw [hl] at hnone'
      cases hnone'
  · obtain ⟨e, he, rfl⟩ := Option.map_eq_some_iff.mp hit
    cases hl : u.dirtyPagesInPageCache with
    | nil =>
      rw [hl] at he
      cases he
    | cons e' l =>
      rw [hl] at he
      obtain rfl : e' = e := Option.some.inj he
      have hfrom : u.entriesFrom (some e'.1) = e' :: l := by
        show u.dirtyPagesInPageCache.dropWhile _ = _
        rw [hl, List.dropWhile_cons_of_neg (by simp)]
      refine ⟨?_, fun id hid => ?_, nofun⟩
      · show _ = [] ++ (u.entriesFrom (some e'.1)).map _
        rw [hfrom, List.nil_append]
      · obtain rfl : e'.1 = id := Option.some.inj hid
        exact ⟨e'.2, l, hfrom⟩
  · rcases e with e | e <;> cases e
  · obtain ⟨e, -, rfl⟩ := Option.map_eq_some_iff.mp hit
    rfl
  · have hn : ScanPlace.counting 0 = .counting n := hn
    cases hn
    refine ⟨rfl, fun it hit => ?_, fun q hq => absurd hq (Nat.not_lt_zero q)⟩
    have hit' : it ∈ x.fileIters := hit
    rw [hfiles] at hit'
    cases hit'

/-- the pages of a partition -/
theorem load_of_partition {q : Nat} {pages : List (Nat × C)}
    (hq : u.file.partitions[q]? = some pages) (i : Nat) : u.file.load q i = pages[i]? := by
  rw [DataFile.load, hq, Option.bind_some]

theorem count_ok (h : ScanOk members x u table) {n : Nat} (hp : x.place = .counting n)
    {pages : List (Nat × C)} (hq : u.file.partitions[n]? = some pages)
    (hf : ∀ i id c, u.file.load n i = some (id, c) → id ∉ u.dirtyPagesInPageCache.map (·.1)) :
    ScanOk members { x with
      place := .counting (n + 1)
      fileIters :=
        if 0 < pages.length then
          x.fileIters ++ [{
            partitionId := n, numPages := pages.length, numIteratedPages := 0, fetch := none
            returned := [] }]
        else x.fileIters } u table := by
  obtain ⟨ht, hlt, hall⟩ := h.counting n hp
  have hidle := h.idle (by rw [hp]; nofun)
  have hload := load_of_partition hq
  have hmem : ∀ it, it ∈ (if 0 < pages.length then
      x.fileIters ++ [({
        partitionId := n, numPages := pages.length, numIteratedPages := 0, fetch := none
        returned := [] } : PartitionPageIterator)]
      else x.fileIters) → it ∈ x.fileIters ∨ it = {
        partitionId := n, numPages := pages.length, numIteratedPages := 0, fetch := none
        returned := [] } := by
    intro it hit
    split at hit
    · exact (List.mem_append.mp hit).imp_right List.mem_singleton.mp
    · exact .inl hit
  refine ⟨h.scannable, h.belongs, h.distinct, h.ofTable, h.noIter, h.iter, fun it hit => ?_, ?_,
    fun id hid => ?_, fun e => ?_, fun _ => hidle, fun m hm => ?_, nofun⟩
  · obtain hit | rfl := hmem it hit
    · exact h.files it hit
    · refine ⟨Nat.zero_le _, fun i hi => ⟨pages[i], ?_⟩, rfl, nofun⟩
      rw [hload i, List.getElem?_eq_getElem hi]
  · show (List.map _ (if 0 < pages.length then _ else _)).Nodup
    split
    · rw [List.map_append, List.nodup_append]
      refine ⟨h.partitions, List.nodup_singleton _, fun a ha b hb => ?_⟩
      obtain ⟨it, hit, rfl⟩ := List.mem_map.mp ha
      obtain rfl : b = n := List.mem_singleton.mp hb
      exact Nat.ne_of_lt (hlt it hit)
    · exact h.partitions
  · rintro ⟨it, hit, i, hi, c, hl⟩
    obtain hit | rfl := hmem it hit
    · exact h.disjoint id hid ⟨it, hit, i, hi, c, hl⟩
    · rw [ht] at hid
      exact hf i id c hl hid
  · rcases e with e | e <;> cases e
  · have hm : ScanPlace.counting (n + 1) = .counting m := hm
    cases hm
    refine ⟨ht, fun it hit => ?_, fun q hq' i id c hl => ?_⟩
    · obtain hit | rfl := hmem it hit
      · exact Nat.lt_succ_of_lt (hlt it hit)
      · exact Nat.lt_succ_self n
    · rcases Nat.lt_succ_iff_lt_or_eq.mp hq' with hlt' | rfl
      · obtain ht' | ⟨it, hit, hit'⟩ := hall q hlt' i id c hl
        · exact .inl ht'
        · refine .inr ⟨it, ?_, hit'⟩
          show it ∈ if 0 < pages.length then _ else _
          split
          · exact List.mem_append_left _ hit
          · exact hit
      · have hil : i < pages.length := by
          rw [hload i] at hl
          exact (List.getElem?_eq_some_iff.mp hl).1
        refine .inr ⟨{
          partitionId := q, numPages := pages.length, numIteratedPages := 0, fetch := none
          returned := [] }, ?_, rfl, hil⟩
        show _ ∈ if 0 < pages.length then _ else _
        rw [if_pos (Nat.zero_lt_of_lt hil)]
        exact List.mem_append_right _ (List.mem_singleton.mpr rfl)

theorem unlock_ok (h : ScanOk members x u table)
    (hp : x.place = .counting u.file.partitions.length) :
    ScanOk members { x with place := .scanning } u table := by
  obtain ⟨ht, -, hall⟩ := h.counting _ hp
  refine ⟨h.scannable, h.belongs, h.distinct, h.ofTable, h.noIter, h.iter, h.files, h.partitions,
    h.disjoint, fun e => ?_, fun e => absurd rfl e, nofun, fun _ id hid => ?_⟩
  · rcases e with e | e <;> cases e
  · obtain hk | ⟨q, i, c, hl⟩ := (h.belongs id).mp hid
    · rw [ht]
      exact .inl (mem_ids.mpr hk)
    · have hq : q < u.file.partitions.length := by
        obtain ⟨pages, hpages, -⟩ := Option.bind_eq_some_iff.mp hl
        exact (List.getElem?_eq_some_iff.mp hpages).1
      obtain ht' | ⟨it, hit, rfl, hi⟩ := hall q hq i id c hl
      · exact .inl ht'
      · exact .inr ⟨it, hit, i, hi, c, hl⟩

/-! ## The steps of the iterators -/

/-- a step of an iterator that leaves the table as it is -/
theorem ScanOk.iterated (h : ScanOk members x u table) {server : PangeaStorageServer C}
    (hs : Scannable server x.set u) {cacheIter : Option SetCachePageIterator}
    (hnone : cacheIter = none → table = [])
    (hiter : ∀ it, cacheIter = some it → CacheIterOk u table it)
    (hidle : x.place ≠ .scanning → ∀ it, cacheIter = some it → it.fetch = none)
    (hearly : x.cacheIter = none → cacheIter = none) :
    ScanOk members { x with server, cacheIter } u table :=
  ⟨hs, h.belongs, h.distinct, h.ofTable, hnone, hiter, h.files, h.partitions, h.disjoint,
    fun e => ⟨hearly (h.early e).1, (h.early e).2⟩, hidle, h.counting, h.scanning⟩

/-- an iterator of a partition goes on to the same partition with the same pages -/
theorem ScanOk.setIter (h : ScanOk members x u table) {server : PangeaStorageServer C}
    (hs : Scannable server x.set u) {i : Nat} {it it' : PartitionPageIterator}
    (hi : x.fileIters[i]? = some it) (hok : FileIterOk u it')
    (hp : it'.partitionId = it.partitionId) (hn : it'.numPages = it.numPages) :
    ScanOk members { x with server, fileIters := x.fileIters.set i it' } u table := by
  obtain ⟨hlt, hget⟩ := List.getElem?_eq_some_iff.mp hi
  have hmem : it ∈ x.fileIters := List.mem_of_getElem? hi
  have hback : ∀ jt ∈ x.fileIters.set i it', ∃ kt ∈ x.fileIters,
      jt.partitionId = kt.partitionId ∧ jt.numPages = kt.numPages := by
    intro jt hjt
    obtain hjt | rfl := List.mem_or_eq_of_mem_set hjt
    · exact ⟨jt, hjt, rfl, rfl⟩
    · exact ⟨it, hmem, hp, hn⟩
  have hforth : ∀ kt ∈ x.fileIters, ∃ jt ∈ x.fileIters.set i it',
      jt.partitionId = kt.partitionId ∧ jt.numPages = kt.numPages := by
    intro kt hkt
    obtain ⟨j, hj, rfl⟩ := List.getElem_of_mem hkt
    by_cases hij : i = j
    · subst hij
      exact ⟨it', List.mem_set hlt it', by rw [hp, hget], by rw [hn, hget]⟩
    · refine ⟨x.fileIters[j], List.mem_iff_getElem?.mpr ⟨j, ?_⟩, rfl, rfl⟩
      rw [List.getElem?_set_ne hij, List.getElem?_eq_getElem hj]
  have hcount : ∀ id, Counted { x with server, fileIters := x.fileIters.set i it' } u id ↔
      x.Counted u id := by
    intro id
    constructor
    · rintro ⟨jt, hjt, j, hj, c, hl⟩
      obtain ⟨kt, hkt, hp', hn'⟩ := hback jt hjt
      exact ⟨kt, hkt, j, by omega, c, by rwa [← hp']⟩
    · rintro ⟨kt, hkt, j, hj, c, hl⟩
      obtain ⟨jt, hjt, hp', hn'⟩ := hforth kt hkt
      exact ⟨jt, hjt, j, by omega, c, by rwa [hp']⟩
  have hpartitions : (x.fileIters.set i it').map (·.partitionId) =
      x.fileIters.map (·.partitionId) := by
    rw [List.map_set, hp, ← hget]
    apply List.ext_getElem?
    intro j
    rw [List.getElem?_set]
    split
    · next hij =>
      subst hij
      simp [hlt]
    · rfl
  refine ⟨hs, h.belongs, h.distinct, h.ofTable, h.noIter, h.iter, fun jt hjt => ?_,
    by rw [hpartitions]; exact h.partitions, fun id hid hc => h.disjoint id hid ((hcount id).mp hc),
    fun e => ?_, h.idle, fun n hn' => ?_, fun hpl id hid =>
      (h.scanning hpl id hid).imp_right (hcount id).mpr⟩
  · obtain hjt | rfl := List.mem_or_eq_of_mem_set hjt
    · exact h.files jt hjt
    · exact hok
  · obtain ⟨hci, hfi⟩ := h.early e
    rw [hfi] at hmem
    cases hmem
  · obtain ⟨ht, hltn, hall⟩ := h.counting n hn'
    refine ⟨ht, fun jt hjt => ?_, fun q hq j id c hl => ?_⟩
    · obtain ⟨kt, hkt, hp', -⟩ := hback jt hjt
      rw [hp']
      exact hltn kt hkt
    · obtain ht' | ⟨kt, hkt, hkp, hkn⟩ := hall q hq j id c hl
      · exact .inl ht'
      · obtain ⟨jt, hjt, hp', hn''⟩ := hforth kt hkt
        exact .inr ⟨jt, hjt, hp'.trans hkp, by omega⟩

/-- the entry an iterator points at -/
theorem CacheIterOk.cons {it : SetCachePageIterator} (h : CacheIterOk u table it) {id : Nat}
    (hi : it.iter = some id) : ∃ k rest, u.entriesFrom it.iter = (id, k) :: rest ∧
      (id, k) ∈ u.dirtyPagesInPageCache ∧ table = it.returned ++ id :: rest.map (·.1) := by
  obtain ⟨k, rest, he⟩ := h.there id hi
  obtain ⟨front, hl⟩ := split_entriesFrom he
  refine ⟨k, rest, he, ?_, ?_⟩
  · rw [hl]
    exact List.mem_append_right _ List.mem_cons_self
  · rw [h.rest, he]
    rfl

variable [Inhabited C]

theorem next_ok (h : ScanOk members x u table) (hp : x.place = .scanning)
    {it : SetCachePageIterator} (hit : x.cacheIter = some it) (hs : x.next it = some y) :
    ScanOk members y u table := by
  have hok := h.iter it hit
  unfold next at hs
  split at hs
  · next id hfetch hiter hunlocked =>
    rw [h.userSet, Option.bind_some] at hs
    obtain ⟨k, rest, he, hm, htable⟩ := hok.cons hiter
    rw [he] at hs
    dsimp only at hs
    have hearly : ∀ o : SetCachePageIterator, x.cacheIter = none → some o = none := by
      intro o e
      rw [hit] at e
      cases e
    split at hs
    · next hk =>
      -- the page is in the cache, and is returned
      obtain ⟨server, hserver, rfl⟩ := Option.map_eq_some_iff.mp hs
      obtain ⟨page, hcache, -⟩ := h.scannable.listed id ⟨k, hm, hk⟩
      have hscan : Scannable server x.set u := by
        unfold getPage1 at hserver
        rw [if_pos hunlocked, hcache] at hserver
        rw [← Option.some.inj hserver]
        exact h.scannable.updatePage page _ fun _ => ⟨rfl, rfl⟩
      have hn := h.scannable.ordered.table
      rw [cachedId_of_cache h.scannable hcache]
      refine h.iterated hscan nofun (fun it' hit' => ?_) (fun e => absurd hp e) (hearly _)
      obtain rfl := Option.some.inj hit'
      refine ⟨?_, fun id' hi => ?_, fun f hf => ?_⟩
      · show table = (it.returned ++ [id]) ++ (u.entriesFrom (u.nextEntry it.iter)).map _
        rw [entriesFrom_next hn he, htable, List.append_assoc]
        rfl
      · exact there_next hn he hi
      · have hf' : it.fetch = some f := hf
        rw [hfetch] at hf'
        cases hf'
    · next hk =>
      -- the page has been flushed, and is to be fetched
      obtain rfl := Option.some.inj hs
      obtain ⟨q, i, c, hplace, hl⟩ := h.scannable.ordered.flushed id k hm (by simpa using hk)
      refine h.iterated h.scannable nofun (fun it' hit' => ?_) (fun e => absurd hp e) (hearly _)
      obtain rfl := Option.some.inj hit'
      refine ⟨hok.rest, hok.there, fun f hf => ?_⟩
      obtain rfl := Option.some.inj hf
      exact ⟨id, k, hiter, hm, by simpa using hk, rfl, q, i, c, hplace, hl⟩
  · cases hs

theorem fetch_ok (h : ScanOk members x u table) {it : SetCachePageIterator}
    (hit : x.cacheIter = some it) {f f' : Fetch} (hf : it.fetch = some f)
    {server : PangeaStorageServer C} (hs : x.server.fetchStep x.set f = some (server, f')) :
    ScanOk members { x with server, cacheIter := some { it with fetch := some f' } } u table := by
  have hok := h.iter it hit
  obtain ⟨id, k, hi, hm, hk, hfetch⟩ := hok.fetch f hf
  obtain ⟨hscan, hfetch'⟩ := fetchStep_ok h.scannable hfetch hs
  refine h.iterated hscan nofun (fun it' hit' => ?_) (fun e it' hit' => ?_) (fun e => ?_)
  · obtain rfl := Option.some.inj hit'
    refine ⟨hok.rest, hok.there, fun g hg => ?_⟩
    obtain rfl := Option.some.inj hg
    exact ⟨id, k, hi, hm, hk, hfetch'⟩
  · have hidle := h.idle e it hit
    rw [hf] at hidle
    cases hidle
  · rw [hit] at e
    cases e

/-- the table without an entry, from the next one on -/
theorem entriesFrom_erase (hn : (u.dirtyPagesInPageCache.map (·.1)).Nodup) {iter : Option Nat}
    {id : Nat} {k : FileSearchKey} {rest : List (Nat × FileSearchKey)}
    (h : u.entriesFrom iter = (id, k) :: rest) :
    (u.eraseDirtyPage id).entriesFrom (u.nextEntry iter) = rest := by
  obtain ⟨front, hl⟩ := split_entriesFrom h
  rw [hl] at hn
  have hne : ∀ e ∈ front ++ rest, e.1 ≠ id := by
    rw [List.map_append, List.map_cons, List.nodup_middle, List.nodup_cons, ← List.map_append] at hn
    intro e he hid
    exact hn.1 (List.mem_map.mpr ⟨e, he, hid⟩)
  have herase : (u.eraseDirtyPage id).dirtyPagesInPageCache = front ++ rest := by
    show u.dirtyPagesInPageCache.filter _ = _
    rw [hl, List.filter_append, List.filter_cons_of_neg (by simp), ← List.filter_append]
    exact List.filter_eq_self.mpr fun e he => by simpa using hne e he
  rw [nextEntry, h, List.tail_cons]
  cases rest with
  | nil => rfl
  | cons e rest =>
    show (u.eraseDirtyPage id).dirtyPagesInPageCache.dropWhile (fun e' => e'.1 ≠ e.1) = e :: rest
    rw [herase]
    apply dropWhile_append
    rw [List.map_append, List.map_cons, List.nodup_append] at hn
    intro hm
    exact hn.2.2 _ hm _ (List.mem_cons_of_mem _ (List.mem_cons_self)) rfl

theorem erase_ok (h : ScanOk members x u table) {it : SetCachePageIterator}
    (hit : x.cacheIter = some it) (hs : x.eraseFetched it = some y) :
    ∃ u', ScanOk members y u' table := by
  have hok := h.iter it hit
  unfold eraseFetched at hs
  split at hs
  · next page id hfetch hiter =>
    rw [h.userSet, Option.map_some] at hs
    obtain rfl := Option.some.inj hs
    obtain ⟨id', k', hi', hm', hk', rfl⟩ := hok.fetch _ hfetch
    obtain rfl : id = id' := Option.some.inj (hiter.symm.trans hi')
    obtain ⟨k, rest, he, hm, htable⟩ := hok.cons hiter
    have hn := h.scannable.ordered.table
    have hkeep : ∀ id' k, (id', k) ∈ u.dirtyPagesInPageCache → id' ≠ id →
        (id', k) ∈ (u.eraseDirtyPage id).dirtyPagesInPageCache := fun id' k hm hne =>
      List.mem_filter.mpr ⟨hm, by simpa using hne⟩
    -- an entry of the page has it as one that is not in the cache
    have hone : ∀ k, (id, k) ∈ u.dirtyPagesInPageCache → k.inCache = false := by
      intro k'' hm''
      have he := List.inj_on_of_nodup_map hn hm'' hm' rfl
      rw [(Prod.mk.inj he).2]
      exact hk'
    have hscan : Scannable (x.server.updateSet x.set (u.eraseDirtyPage id)) x.set
        (u.eraseDirtyPage id) := by
      refine h.scannable.updateSet rfl List.filter_sublist fun id' ⟨k'', hm'', hk''⟩ => ?_
      refine ⟨k'', hkeep id' k'' hm'' ?_, hk''⟩
      rintro rfl
      rw [hone k'' hm''] at hk''
      cases hk''
    have hplace : x.place = .scanning := by
      by_contra hne
      have hidle := h.idle hne it hit
      rw [hfetch] at hidle
      cases hidle
    refine ⟨_, hscan, fun id' => ?_, h.distinct, h.ofTable, nofun, fun it' hit' => ?_,
      fun jt hjt => (h.files jt hjt).mono fun _ _ _ hl => hl, h.partitions, h.disjoint,
      fun e => ?_, fun e => absurd hplace e, fun n hpl => ?_, h.scanning⟩
    · rw [h.belongs id']
      constructor
      · rintro (⟨k'', hm''⟩ | hin)
        · by_cases hid : id' = id
          · subst hid
            obtain ⟨q, i, c, -, hl⟩ := h.scannable.ordered.flushed id' k'' hm'' (hone k'' hm'')
            exact .inr ⟨q, i, c, hl⟩
          · exact .inl ⟨k'', hkeep id' k'' hm'' hid⟩
        · exact .inr hin
      · rintro (⟨k'', hm''⟩ | hin)
        · exact .inl ⟨k'', (List.mem_filter.mp hm'').1⟩
        · exact .inr hin
    · obtain rfl := Option.some.inj hit'
      have herase := entriesFrom_erase hn he
      refine ⟨?_, fun id' hi => ?_, nofun⟩
      · show table = (it.returned ++ [id]) ++
          ((u.eraseDirtyPage id).entriesFrom (u.nextEntry it.iter)).map _
        rw [herase, htable, List.append_assoc]
        rfl
      · have hi : u.nextEntry it.iter = some id' := hi
        show ∃ k rest, (u.eraseDirtyPage id).entriesFrom (u.nextEntry it.iter) = (id', k) :: rest
        rw [herase, ← entriesFrom_next hn he]
        exact there_next hn he hi
    · rcases e with e | e <;> cases hplace.symm.trans e
    · cases hplace.symm.trans hpl
  · cases hs

theorem nextOnDisk_ok (h : ScanOk members x u table) {i : Nat} {it : PartitionPageIterator}
    (hi : x.fileIters[i]? = some it) (hs : x.nextOnDisk i it = some y) :
    ScanOk members y u table := by
  have hok := h.files it (List.mem_of_getElem? hi)
  unfold nextOnDisk at hs
  split at hs
  · next hlt =>
    rw [h.userSet, Option.bind_some] at hs
    obtain ⟨⟨id, c⟩, hl, rfl⟩ := Option.map_eq_some_iff.mp hs
    refine h.setIter h.scannable hi ⟨hok.le, hok.pages, hok.returned, fun f hf => ?_⟩ rfl rfl
    obtain rfl := Option.some.inj hf
    exact ⟨hlt.2, id, c, hl, rfl, it.partitionId, it.numIteratedPages, c, rfl, hl⟩
  · cases hs

theorem fetchOnDisk_ok (h : ScanOk members x u table) {i : Nat} {it : PartitionPageIterator}
    (hi : x.fileIters[i]? = some it) (hs : x.fetchOnDisk i it = some y) :
    ScanOk members y u table := by
  have hok := h.files it (List.mem_of_getElem? hi)
  obtain ⟨f, hf, he⟩ := Option.bind_eq_some_iff.mp hs
  obtain ⟨⟨server, f'⟩, hstep, rfl⟩ := Option.map_eq_some_iff.mp he
  obtain ⟨hlt, id, c, hl, hfetch⟩ := hok.fetch f hf
  obtain ⟨hscan, hfetch'⟩ := fetchStep_ok h.scannable hfetch hstep
  match f', hfetch' with
  | .got _, rfl =>
    refine h.setIter hscan hi ⟨hlt, hok.pages, ?_, nofun⟩ rfl rfl
    rw [idsAt_succ hl, ← hok.returned]
    rfl
  | .lookup pageId place, hfetch' | .load q j, hfetch' =>
    refine h.setIter hscan hi ⟨hok.le, hok.pages, hok.returned, fun g hg => ?_⟩ rfl rfl
    obtain rfl := Option.some.inj hg
    exact ⟨hlt, id, c, hl, hfetch'⟩

/-- **One step of the scan or of a flush consumer.** -/
theorem step_ok (h : ScanOk members x u table) {op : ScanOp} (hf : x.Fine op)
    (hs : x.step op = some y) : ∃ u' table', ScanOk members y u' table' := by
  cases op with
  | flush op =>
    have hs : (if x.tableLocked && (x.server.removesFrom x.set op).isSome then none
      else (x.server.flushStep op).map fun server => { x with server }) = some y := hs
    split at hs
    · cases hs
    · next hlock =>
      obtain ⟨server, hserver, rfl⟩ := Option.map_eq_some_iff.mp hs
      obtain ⟨u', hscan, hle⟩ := flushStep_scannable h.scannable hf.1 hserver
      refine ⟨u', table, flush_ok h hscan hle (fun hl => ?_) fun hp it id => hf.2 hp u it id h.userSet⟩
      rw [hl, Bool.true_and] at hlock
      exact Option.not_isSome_iff_eq_none.mp hlock
  | setPinned isPinned =>
    have hs : (if x.tableLocked then none
      else x.userSet.map fun u => x.updateUserSet { u with isPinned }) = some y := hs
    split at hs
    · cases hs
    · rw [h.userSet] at hs
      rw [← Option.some.inj hs]
      exact ⟨_, table, setPinned_ok h isPinned⟩
  | cleanDirtyPageSet =>
    have hs : (if x.place = .begun then x.userSet.map fun u =>
      { x.updateUserSet u.cleanDirtyPageSet with place := .cleaned } else none) = some y := hs
    split at hs
    · next hp =>
      rw [h.userSet] at hs
      rw [← Option.some.inj hs]
      exact ⟨_, table, clean_ok h hp⟩
    · cases hs
  | lockDirtyPageSet =>
    simp only [step] at hs
    split at hs
    · next hp =>
      rw [h.userSet] at hs
      rw [← Option.some.inj hs]
      exact ⟨u, _, lock_ok h hp⟩
    · cases hs
  | countPartition =>
    simp only [step] at hs
    split at hs
    · next n hp =>
      rw [h.userSet, Option.bind_some] at hs
      obtain ⟨pages, hq, rfl⟩ := Option.map_eq_some_iff.mp hs
      exact ⟨u, table, count_ok h hp hq (hf n u hp h.userSet)⟩
    · cases hs
  | unlockDirtyPageSet =>
    simp only [step] at hs
    split at hs
    · next n v hp hv =>
      rw [h.userSet] at hv
      obtain rfl := Option.some.inj hv
      split at hs
      · next hn =>
        subst hn
        rw [← Option.some.inj hs]
        exact ⟨u, table, unlock_ok h hp⟩
      · cases hs
    · cases hs
  | next =>
    simp only [step] at hs
    split at hs
    · next hp =>
      obtain ⟨it, hit, hn⟩ := Option.bind_eq_some_iff.mp hs
      exact ⟨u, table, next_ok h hp hit hn⟩
    · cases hs
  | fetch =>
    obtain ⟨it, hit, he⟩ := Option.bind_eq_some_iff.mp hs
    obtain ⟨f, hfetch, he⟩ := Option.bind_eq_some_iff.mp he
    obtain ⟨⟨server, f'⟩, hstep, rfl⟩ := Option.map_eq_some_iff.mp he
    exact ⟨u, table, fetch_ok h hit hfetch hstep⟩
  | eraseFetched =>
    obtain ⟨it, hit, he⟩ := Option.bind_eq_some_iff.mp hs
    obtain ⟨u', h'⟩ := erase_ok h hit he
    exact ⟨u', table, h'⟩
  | nextOnDisk i =>
    simp only [step] at hs
    split at hs
    · obtain ⟨it, hi, hn⟩ := Option.bind_eq_some_iff.mp hs
      exact ⟨u, table, nextOnDisk_ok h hi hn⟩
    · cases hs
  | fetchOnDisk i =>
    obtain ⟨it, hi, hn⟩ := Option.bind_eq_some_iff.mp hs
    exact ⟨u, table, fetchOnDisk_ok h hi hn⟩

end

/-! ## What holds in every run -/

/-- the scan is about to begin -/
structure Begun (x : SetScan C) : Prop where
  scannable : ∃ u, Scannable x.server x.set u
  place : x.place = .begun
  cacheIter : x.cacheIter = none
  fileIters : x.fileIters = []

theorem Begun.ok {x : SetScan C} (h : Begun x) : ∃ u, ScanOk x.HasPage x u [] := by
  obtain ⟨u, hs⟩ := h.scannable
  refine ⟨u, hs, fun id => ?_, List.nodup_nil, nofun, fun _ => rfl, fun it hit => ?_,
    fun it hit => ?_, ?_, nofun, fun _ => ⟨h.cacheIter, h.fileIters⟩, fun _ it hit => ?_,
    fun n hn => ?_, fun hp => ?_⟩
  · constructor
    · rintro ⟨v, hv, hid⟩
      obtain rfl := Option.some.inj (hv.symm.trans hs.found)
      exact hid
    · exact fun hid => ⟨u, hs.found, hid⟩
  · cases h.cacheIter.symm.trans hit
  · rw [h.fileIters] at hit
    cases hit
  · rw [h.fileIters]
    exact List.nodup_nil
  · cases h.cacheIter.symm.trans hit
  · cases h.place.symm.trans hn
  · cases h.place.symm.trans hp

/-- each page of the set is returned once, over all iterators -/
structure Exact (x₀ x : SetScan C) : Prop where
  once : x.returned.Nodup
  sound : ∀ id ∈ x.returned, x₀.HasPage id
  complete : x.Finished → ∀ id, x₀.HasPage id → id ∈ x.returned
  /-- the entry that the iterator of the table points at is there -/
  valid : ∀ it ∈ x.cacheIter, ∀ id ∈ it.iter, ∃ u k, x.userSet = some u ∧
    (id, k) ∈ u.dirtyPagesInPageCache

theorem ScanOk.exact {x₀ x : SetScan C} {u : UserSet C} {table : List Nat}
    (h : ScanOk x₀.HasPage x u table) : Exact x₀ x := by
  -- what the iterator of the table has returned is a front part of the table
  have hprefix : ∃ rest, table = (x.cacheIter.elim [] (·.returned)) ++ rest := by
    cases hit : x.cacheIter with
    | none => exact ⟨table, rfl⟩
    | some it => exact ⟨_, (h.iter it hit).rest⟩
  obtain ⟨rest, htable⟩ := hprefix
  have hfile : ∀ it ∈ x.fileIters, ∀ id ∈ it.returned, ∃ i < it.numPages, ∃ c,
      u.file.load it.partitionId i = some (id, c) := by
    intro it hit id hid
    rw [(h.files it hit).returned] at hid
    obtain ⟨i, hi, c, hl⟩ := mem_idsAt.mp hid
    exact ⟨i, Nat.lt_of_lt_of_le hi (h.files it hit).le, c, hl⟩
  refine ⟨?_, fun id hid => ?_, fun hfin id hid => ?_, fun it hit id hi => ?_⟩
  · apply List.nodup_append.mpr
    refine ⟨?_, List.nodup_flatMap.mpr ⟨fun it hit => ?_, ?_⟩, fun a ha b hb => ?_⟩
    · have hd := h.distinct
      rw [htable] at hd
      exact (List.nodup_append.mp hd).1
    · rw [(h.files it hit).returned]
      exact nodup_idsAt h.scannable.ordered _ _
    · -- a page is in one partition
      have hp : x.fileIters.Pairwise fun it it' => it.partitionId ≠ it'.partitionId :=
        List.pairwise_map.mp h.partitions
      refine List.Pairwise.imp_of_mem (fun {it it'} hit hit' hne => ?_) hp
      intro id hid hid'
      obtain ⟨i, -, c, hl⟩ := hfile it hit id hid
      obtain ⟨i', -, c', hl'⟩ := hfile it' hit' id hid'
      exact hne (h.scannable.ordered.once _ _ _ _ id c c' hl hl').1
    · rintro rfl
      obtain ⟨it, hit, hr⟩ := List.mem_flatMap.mp hb
      refine h.disjoint a ?_ ⟨it, hit, hfile it hit a hr⟩
      rw [htable]
      exact List.mem_append_left _ ha
  · obtain hid | hid := List.mem_append.mp hid
    · apply h.ofTable
      rw [htable]
      exact List.mem_append_left _ hid
    · obtain ⟨it, hit, hr⟩ := List.mem_flatMap.mp hid
      obtain ⟨i, -, c, hl⟩ := hfile it hit id hr
      exact (h.belongs id).mpr (.inr ⟨it.partitionId, i, c, hl⟩)
  · obtain ⟨hp, hci, hfi⟩ := hfin
    obtain hid | ⟨it, hit, i, hi, c, hl⟩ := h.scanning hp id hid
    · apply List.mem_append_left
      cases hit : x.cacheIter with
      | none =>
        rw [h.noIter hit] at hid
        cases hid
      | some it =>
        have hend := hci it hit
        rw [(h.iter it hit).rest, hend] at hid
        simpa [entriesFrom] using hid
    · apply List.mem_append_right
      refine List.mem_flatMap.mpr ⟨it, hit, ?_⟩
      rw [(h.files it hit).returned, (hfi it hit).2]
      exact mem_idsAt.mpr ⟨i, hi, c, hl⟩
  · obtain ⟨k, _, -, hm, -⟩ := (h.iter it hit).cons hi
    exact ⟨u, k, h.userSet, hm⟩

/-- **A scan returns each page of the set once.** -/
theorem exact_of_reach [Inhabited C] {x₀ x : SetScan C} (hb : Begun x₀)
    (hr : Machine.Reach step Fine x₀ x) : Exact x₀ x := by
  obtain ⟨u₀, h₀⟩ := hb.ok
  obtain ⟨u, table, h⟩ := hr.inv (P := fun y => ∃ u table, ScanOk x₀.HasPage y u table)
    ⟨u₀, [], h₀⟩ fun t op y ⟨u, table, h⟩ hf hs => step_ok h hf hs
  exact h.exact

/-! ## Examples -/

/-- in a set that stays pinned, from one look at the state -/
def fineIfPinned (x : SetScan C) : ScanOp → Bool
  | .flush op =>
    x.userSet.all fun u => u.isPinned && match op with
      | .appendPage partitionId fails => !fails && partitionId < u.file.partitions.length
      | _ => true
  | .countPartition =>
    match x.place, x.userSet with
    | .counting partitionId, some u =>
      (u.file.partitions[partitionId]?).all fun pages =>
        pages.all fun e => e.1 ∉ u.dirtyPagesInPageCache.map (·.1)
    | _, _ => true
  | _ => true

theorem fine_of_pinned {x : SetScan C} {op : ScanOp} (h : x.fineIfPinned op = true) :
    x.Fine op := by
  cases op with
  | flush op =>
    have hall : ∀ u, x.userSet = some u → u.isPinned = true ∧ _ := fun u hu => by
      have h' : x.userSet.all _ = true := h
      rw [hu, Option.all_some] at h'
      exact Bool.and_eq_true_iff.mp h'
    refine ⟨?_, fun _ u it id hu _ _ => .inl (hall u hu).1⟩
    cases op with
    | appendPage partitionId fails =>
      intro page p u _ _ _ hu
      have hok := Bool.and_eq_true_iff.mp (hall u hu).2
      exact ⟨by simpa using hok.1, by simpa using hok.2⟩
    | _ => trivial
  | countPartition =>
    intro q u hp hu i id c hl
    have h' : (match x.place, x.userSet with
      | .counting partitionId, some u =>
        (u.file.partitions[partitionId]?).all fun pages =>
          pages.all fun e => e.1 ∉ u.dirtyPagesInPageCache.map (·.1)
      | _, _ => true) = true := h
    rw [hp, hu] at h'
    obtain ⟨pages, hq, hi⟩ := Option.bind_eq_some_iff.mp hl
    have h' : (u.file.partitions[q]?).all _ = true := h'
    rw [show u.file.partitions[q]? = some pages from hq, Option.all_some] at h'
    simpa using (List.all_eq_true.mp h') _ (List.mem_of_getElem? hi)
  | _ => trivial

instance (x : SetScan C) : Decidable x.Finished :=
  inferInstanceAs (Decidable (_ ∧ (∀ it ∈ x.cacheIter, _) ∧ ∀ it ∈ x.fileIters, _))

def scannedSet : SetKey := ⟨1, 2, 3⟩

/-- a pinned set with one page in its file and one that waits for a flush -/
def pinnedSet : UserSet Nat :=
  { file := { partitions := [[(0, 5)]], pageIndex := fun i => if i = 0 then some (0, 0) else none }
    dirtyPagesInPageCache := [(1, { inCache := true, place := none })], isPinned := true, seqId := 2 }

def pinnedScan : SetScan Nat :=
  { server :=
      { pages := [
          { key := ⟨scannedSet, 1⟩, rawBytes := some 7, refCount := 0, dirty := true, inFlush := true
            inEviction := true, writer := .unpinned }]
        cache := fun key => if key = ⟨scannedSet, 1⟩ then some 0 else none
        sets := fun set => if set = scannedSet then some pinnedSet else none
        flushBuffer := [0], flushConsumers := [none], evicting := [], loading := [] }
    set := scannedSet, place := .begun, cacheIter := none, fileIters := [] }

theorem pinnedScan_begun : Begun pinnedScan := by
  have hload : ∀ q i e, pinnedSet.file.load q i = some e → q = 0 ∧ i = 0 ∧ e = (0, 5) := by
    intro q i e h
    cases q with
    | zero =>
      cases i with
      | zero => exact ⟨rfl, rfl, (Option.some.inj h).symm⟩
      | succ i => cases h
    | succ q => cases h
  have hcache : ∀ id page, pinnedScan.server.cache ⟨scannedSet, id⟩ = some page → id = 1 ∧ page = 0 := by
    intro id page h
    have h' : (if (⟨scannedSet, id⟩ : CacheKey) = ⟨scannedSet, 1⟩ then some 0 else none) = some page := h
    split at h'
    · next he => exact ⟨congrArg CacheKey.pageId he, (Option.some.inj h').symm⟩
    · cases h'
  have hlisted : ∀ id, pinnedSet.ListedIn id → id = 1 := by
    rintro id ⟨k, hm, -⟩
    exact congrArg Prod.fst (List.mem_singleton.mp hm)
  have hpages : ∀ (page : Nat) (p : PDBPage Nat), pinnedScan.server.pages[page]? = some p →
      page = 0 ∧ p.key = ⟨scannedSet, 1⟩ ∧ p.rawBytes = some 7 := by
    intro page p h
    cases page with
    | zero =>
      obtain rfl := Option.some.inj h
      exact ⟨rfl, rfl, rfl⟩
    | succ page => cases h
  have hflight : pinnedScan.server.flight 0 = [none] := rfl
  refine ⟨⟨pinnedSet, rfl, ⟨by decide, fun p i p' i' id c c' hl hl' => ?_, fun id k hm hk => ?_⟩,
    fun id page hc => ?_, fun id hl => ?_, fun page p hp _ _ => ?_, fun q page r p hc => ?_,
    fun page hge => ?_⟩, rfl, rfl, rfl⟩
  · obtain ⟨rfl, rfl, -⟩ := hload p i _ hl
    obtain ⟨rfl, rfl, -⟩ := hload p' i' _ hl'
    exact ⟨rfl, rfl⟩
  · obtain ⟨-, rfl⟩ := Prod.mk.inj (List.mem_singleton.mp hm)
    cases hk
  · obtain ⟨rfl, rfl⟩ := hcache id page hc
    exact ⟨_, rfl, rfl⟩
  · obtain rfl := hlisted id hl
    exact ⟨0, rfl, Unremoved.of_eq hflight (by rintro ⟨⟩) (by rintro ⟨⟩)⟩
  · obtain ⟨rfl, hk, hb⟩ := hpages page p hp
    refine ⟨none, hflight, by rw [hk]; rfl, ?_⟩
    rw [UserSet.StageOk, hk, hb]
    refine ⟨⟨_, List.mem_singleton.mpr rfl, rfl⟩, ?_, by rintro ⟨⟩⟩
    rintro ⟨q, i, c, hl⟩
    cases (hload q i _ hl).2.2
  · cases q with
    | zero => cases hc
    | succ q => cases hc
  · have hne : page ≠ 0 := Nat.pos_iff_ne_zero.mp hge
    have hbuffer : pinnedScan.server.flushBuffer.filter (· = page) = [] := by
      rw [List.filter_eq_nil_iff]
      intro a ha
      obtain rfl := List.mem_singleton.mp ha
      simpa using hne.symm
    unfold flight
    rw [hbuffer]
    rfl

/-- the page is flushed while the scan is on -/
theorem exact_two : ∃ x : SetScan Nat, Exact pinnedScan x ∧ x.Finished ∧ x.returned = [1, 0] := by
  have hrun : ((Machine.run (Machine.guarded step fun x op => x.fineIfPinned op = true) pinnedScan
      [.flush (.popPageFromHead 0), .cleanDirtyPageSet, .lockDirtyPageSet, .countPartition,
        .unlockDirtyPageSet, .flush (.appendPage 0 false), .flush (.removePageFromDirtyPageSet 0),
        .flush (.freeFlushed 0), .flush (.flushUnlock 0), .next, .nextOnDisk 0, .fetch,
        .fetchOnDisk 0, .fetchOnDisk 0, .fetch, .eraseFetched]).map
      fun x => (decide x.Finished, x.returned)) = some (true, [1, 0]) := by
    decide +kernel
  obtain ⟨x, hx, hobs⟩ := Option.map_eq_some_iff.mp hrun
  obtain ⟨hfin, hret⟩ := Prod.mk.inj hobs
  exact ⟨x, exact_of_reach pinnedScan_begun
    ((Machine.Reach.of_run _ hx).mono fun _ _ => fine_of_pinned), of_decide_eq_true hfin, hret⟩

/-- **A page is counted between its append and its removal from the table**, and is returned twice. -/
theorem exact_not_always : ¬ ∀ x₀ x : SetScan Nat, Begun x₀ →
    Machine.Reach step (fun _ _ => True) x₀ x → Exact x₀ x := by
  intro hall
  have hrun : ((Machine.run (Machine.guarded step fun _ _ => True) pinnedScan
      [.flush (.popPageFromHead 0), .flush (.appendPage 0 false), .cleanDirtyPageSet,
        .lockDirtyPageSet, .countPartition, .unlockDirtyPageSet,
        .flush (.removePageFromDirtyPageSet 0), .flush (.freeFlushed 0), .flush (.flushUnlock 0),
        .next, .fetch, .fetch, .eraseFetched, .nextOnDisk 0, .fetchOnDisk 0, .fetchOnDisk 0,
        .nextOnDisk 0, .fetchOnDisk 0]).map
      fun x => (decide x.Finished, x.returned)) = some (true, [1, 0, 1]) := by
    decide +kernel
  obtain ⟨x, hx, hobs⟩ := Option.map_eq_some_iff.mp hrun
  obtain ⟨-, hret⟩ := Prod.mk.inj hobs
  have honce := (hall pinnedScan x pinnedScan_begun (Machine.Reach.of_run _ hx)).once
  rw [show x.returned = [1, 0, 1] from hret] at honce
  exact absurd honce (by decide)

end SetScan

end Netsdb
