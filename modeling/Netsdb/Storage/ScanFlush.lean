import Netsdb.Storage.SetScan

/-!
# A set while it is flushed

* `Scannable`         a page of the set is in the table or in the file, and what is on its way is in
                      the cache;
* `Around`, `Scannable.around`  the frame of a step of a flush consumer;
* `flushStep_scannable`  every step of a flush consumer keeps a set scannable, when its append succeeds.
-/

set_option linter.unusedSectionVars false

namespace Netsdb
variable {C : Type*}

namespace UserSet

/-- the table has the page as one in the cache -/
def ListedIn (u : UserSet C) (pageId : Nat) : Prop :=
  ∃ k, (pageId, k) ∈ u.dirtyPagesInPageCache ∧ k.inCache = true

def InFile (u : UserSet C) (pageId : Nat) : Prop :=
  ∃ partitionId seq bytes, u.file.load partitionId seq = some (pageId, bytes)

/-- the table and the file are in order -/
structure Ordered (u : UserSet C) : Prop where
  table : (u.dirtyPagesInPageCache.map (·.1)).Nodup
  once : ∀ p i p' i' id c c', u.file.load p i = some (id, c) → u.file.load p' i' = some (id, c') →
    p = p' ∧ i = i'
  flushed : ∀ id k, (id, k) ∈ u.dirtyPagesInPageCache → k.inCache = false →
    ∃ p i c, k.place = some (p, i) ∧ u.file.load p i = some (id, c)

/-- what is known of a page on its way -/
def StageOk (u : UserSet C) (p : PDBPage C) : Option FlushStage → Prop
  | none | some .popped =>
    u.ListedIn p.key.pageId ∧ ¬ u.InFile p.key.pageId ∧ p.rawBytes ≠ none
  | some (.appended _) => u.ListedIn p.key.pageId
  | some .removed | some .freed => True

end UserSet

namespace PangeaStorageServer

/-- not taken out of the table -/
def Unremoved (flight : List (Option FlushStage)) : Prop :=
  some .removed ∉ flight ∧ some .freed ∉ flight

theorem Unremoved.of_eq {flight : List (Option FlushStage)} {f : Option FlushStage}
    (h : flight = [f]) (h₁ : f ≠ some .removed) (h₂ : f ≠ some .freed) : Unremoved flight := by
  subst h
  exact ⟨fun hm => h₁ (List.mem_singleton.mp hm).symm, fun hm => h₂ (List.mem_singleton.mp hm).symm⟩

structure Scannable (s : PangeaStorageServer C) (set : SetKey) (u : UserSet C) : Prop where
  found : s.sets set = some u
  ordered : u.Ordered
  cached : ∀ id page, s.cache ⟨set, id⟩ = some page →
    ∃ p : PDBPage C, s.pages[page]? = some p ∧ p.key = ⟨set, id⟩
  listed : ∀ id, u.ListedIn id → ∃ page, s.cache ⟨set, id⟩ = some page ∧ Unremoved (s.flight page)
  flights : ∀ (page : Nat) (p : PDBPage C), s.pages[page]? = some p → p.key.toSetKey = set →
    s.flight page ≠ [] →
      ∃ f, s.flight page = [f] ∧ s.cache p.key = some page ∧ u.StageOk p f
  appended : ∀ (q page : Nat) (r : Option Nat) (p : PDBPage C),
    s.flushConsumers[q]? = some (some (page, .appended r)) → s.pages[page]? = some p →
      p.key.toSetKey = set → ∃ i c, r = some i ∧ u.file.load q i = some (p.key.pageId, c)
  known : ∀ page, s.pages.length ≤ page → s.flight page = []

/-- a step about one page, which turns `p` into `p'` -/
structure Around (s s' : PangeaStorageServer C) (set : SetKey) (page : Nat) (p p' : PDBPage C) :
    Prop where
  pages : s'.pages = s.pages.set page p'
  key : p'.key = p.key
  cache : ∀ id page', page' ≠ page →
    (s'.cache ⟨set, id⟩ = some page' ↔ s.cache ⟨set, id⟩ = some page')
  cacheSelf : ∀ id, s'.cache ⟨set, id⟩ = some page → s.cache ⟨set, id⟩ = some page
  flight : ∀ page', page' ≠ page → s'.flight page' = s.flight page'
  consumers : ∀ (q page' : Nat) (st : FlushStage), page' ≠ page →
    s'.flushConsumers[q]? = some (some (page', st)) →
    s.flushConsumers[q]? = some (some (page', st))

section
variable {s s' : PangeaStorageServer C} {set : SetKey} {u u' : UserSet C} {page : Nat}
  {p p' : PDBPage C}

theorem StageOk_mono {f : Option FlushStage} (h : u.StageOk p f)
    (hl : u.ListedIn p.key.pageId → u'.ListedIn p.key.pageId)
    (hf : u'.InFile p.key.pageId → u.InFile p.key.pageId) : u'.StageOk p f := by
  match f, h with
  | none, ⟨h₁, h₂, h₃⟩ => exact ⟨hl h₁, fun h => h₂ (hf h), h₃⟩
  | some .popped, ⟨h₁, h₂, h₃⟩ => exact ⟨hl h₁, fun h => h₂ (hf h), h₃⟩
  | some (.appended _), h => exact hl h
  | some .removed, _ => trivial
  | some .freed, _ => trivial

/-- **The frame.** -/
theorem Scannable.around (h : Scannable s set u) (hp : s.pages[page]? = some p)
    (hbusy : s.flight page ≠ []) (ha : Around s s' set page p p') (hset : s'.sets set = some u') (hordered : u'.Ordered)
    (hlisted : ∀ id, u'.ListedIn id → u.ListedIn id)
    (hstay : ∀ id, (⟨set, id⟩ : CacheKey) ≠ p.key → u.ListedIn id → u'.ListedIn id)
    (hfile : ∀ id, (⟨set, id⟩ : CacheKey) ≠ p.key → u'.InFile id → u.InFile id)
    (hload : ∀ q i e, u.file.load q i = some e → u'.file.load q i = some e)
    (hself : p.key.toSetKey = set → u'.ListedIn p.key.pageId → s.cache p.key = some page →
      Unremoved (s.flight page) → s'.cache p.key = some page ∧ Unremoved (s'.flight page))
    (hflight : p.key.toSetKey = set → s'.flight page ≠ [] →
      ∃ f, s'.flight page = [f] ∧ s'.cache p.key = some page ∧ u'.StageOk p' f)
    (hret : p.key.toSetKey = set → ∀ q r,
      s'.flushConsumers[q]? = some (some (page, .appended r)) →
        ∃ i c, r = some i ∧ u'.file.load q i = some (p.key.pageId, c)) :
    Scannable s' set u' := by
  obtain ⟨hlt, -⟩ := List.getElem?_eq_some_iff.mp hp
  have hget : ∀ (q : Nat) (r : PDBPage C), s'.pages[q]? = some r →
      (q = page ∧ r = p') ∨ (q ≠ page ∧ s.pages[q]? = some r) := by
    intro q r hr
    rw [ha.pages, List.getElem?_set] at hr
    by_cases hq : page = q
    · rw [if_pos hq, if_pos hlt] at hr
      exact .inl ⟨hq.symm, (Option.some.inj hr).symm⟩
    · rw [if_neg hq] at hr
      exact .inr ⟨fun e => hq e.symm, hr⟩
  have hkeyed : ∀ (q : Nat) (r : PDBPage C), s.pages[q]? = some r →
      ∃ r', s'.pages[q]? = some r' ∧ r'.key = r.key := by
    intro q r hr
    rw [ha.pages, List.getElem?_set]
    by_cases hq : page = q
    · subst hq
      rw [hp] at hr
      obtain rfl := Option.some.inj hr
      exact ⟨p', by rw [if_pos rfl, if_pos hlt], ha.key⟩
    · exact ⟨r, by rw [if_neg hq, hr], rfl⟩
  refine ⟨hset, hordered, fun id q hq => ?_, fun id hl => ?_, fun q r hr hk hne => ?_,
    fun q pg r pp hc hpg hk => ?_, fun q hq => ?_⟩
  · have hq' : s.cache ⟨set, id⟩ = some q := by
      by_cases hqp : q = page
      · subst hqp
        exact ha.cacheSelf _ hq
      · exact (ha.cache _ q hqp).mp hq
    obtain ⟨r, hr, hk⟩ := h.cached id q hq'
    obtain ⟨r', hr', hk'⟩ := hkeyed q r hr
    exact ⟨r', hr', hk'.trans hk⟩
  · obtain ⟨q, hq, hun⟩ := h.listed id (hlisted id hl)
    by_cases hqp : q = page
    · subst hqp
      obtain ⟨r, hr, hk⟩ := h.cached id q hq
      rw [hp] at hr
      obtain rfl := Option.some.inj hr
      rw [← hk] at hq ⊢
      obtain ⟨hc, hu⟩ := hself (by rw [hk]) (by rw [hk]; exact hl) hq hun
      exact ⟨q, hc, hu⟩
    · exact ⟨q, (ha.cache _ q hqp).mpr hq, by rw [ha.flight q hqp]; exact hun⟩
  · obtain ⟨rfl, rfl⟩ | ⟨hqp, hr⟩ := hget q r hr
    · rw [ha.key] at hk ⊢
      exact hflight hk hne
    · rw [ha.flight q hqp] at hne ⊢
      obtain ⟨f, hf, hc, hok⟩ := h.flights q r hr hk hne
      have hother : (⟨set, r.key.pageId⟩ : CacheKey) ≠ p.key := by
        intro he
        -- the cache has one page of a key
        have hkey : r.key = p.key := by
          rw [← he]
          exact CacheKey.ext' hk rfl
        obtain ⟨_, _, hc', -⟩ := h.flights page p hp (by rw [← hkey]; exact hk) hbusy
        rw [← hkey, hc] at hc'
        exact hqp (Option.some.inj hc')
      have hkey : r.key = ⟨set, r.key.pageId⟩ := CacheKey.ext' hk rfl
      rw [hkey] at hc ⊢
      exact ⟨f, hf, (ha.cache _ q hqp).mpr hc, StageOk_mono hok (hstay _ hother) (hfile _ hother)⟩
  · by_cases hqp : pg = page
    · subst hqp
      obtain ⟨-, rfl⟩ | ⟨hne, -⟩ := hget pg pp hpg
      · rw [ha.key] at hk ⊢
        exact hret hk q r hc
      · exact absurd rfl hne
    · obtain ⟨rfl, -⟩ | ⟨-, hr⟩ := hget pg pp hpg
      · exact absurd rfl hqp
      · obtain ⟨i, c, hi, hl⟩ := h.appended q pg r pp (ha.consumers q pg _ hqp hc) hr hk
        exact ⟨i, c, hi, hload _ _ _ hl⟩
  · rw [ha.pages, List.length_set] at hq
    rw [ha.flight q (by omega)]
    exact h.known q hq

end

/-! ## The steps of a flush consumer -/

section
variable {s s' : PangeaStorageServer C} {set : SetKey} {u : UserSet C} {page partitionId : Nat}
  {p : PDBPage C}

theorem getElem?_setConsumer {c : Option (Nat × FlushStage)} {q : Nat} {x : Nat × FlushStage}
    (h : (s.setConsumer partitionId c).flushConsumers[q]? = some (some x)) :
    (q = partitionId ∧ c = some x) ∨ s.flushConsumers[q]? = some (some x) := by
  have h' : (s.flushConsumers.set partitionId c)[q]? = some (some x) := h
  rw [List.getElem?_set] at h'
  split at h'
  · next hq =>
    split at h'
    · exact .inl ⟨hq.symm, Option.some.inj h'⟩
    · cases h'
  · exact .inr h'

/-- a consumer puts its page on, and changes neither the pages nor the cache nor other sets -/
theorem Around.consumer {stage : FlushStage}
    (hc : s.flushConsumers[partitionId]? = some (some (page, stage)))
    (hp : s.pages[page]? = some p) (set : SetKey) (st : Option FlushStage)
    (sets : SetKey → Option (UserSet C)) :
    Around s ({ s with sets }.setConsumer partitionId (st.map fun st => (page, st))) set page p
      p := by
  refine ⟨?_, rfl, fun _ _ _ => Iff.rfl, fun _ h => h, fun page' hne => ?_,
    fun q page' st' hne h => ?_⟩
  · obtain ⟨hlt, rfl⟩ := List.getElem?_eq_some_iff.mp hp
    exact (List.set_getElem_self hlt).symm
  · refine flight_setConsumer_of_ne (s := { s with sets }) hc (held_of_ne (fun e => hne e.symm) _) ?_
    cases st with
    | none => rfl
    | some st => exact held_of_ne (fun e => hne e.symm) _
  · obtain ⟨-, he⟩ | h := getElem?_setConsumer h
    · cases st with
      | none => cases he
      | some st =>
        cases he
        exact absurd rfl hne
    · exact h

/-- what is known of the page of a consumer, when it is one of the set -/
theorem Scannable.of_consumer (h : Scannable s set u) {stage : FlushStage}
    (hc : s.flushConsumers[partitionId]? = some (some (page, stage)))
    (hp : s.pages[page]? = some p) (hk : p.key.toSetKey = set) :
    s.flight page = [some stage] ∧ s.cache p.key = some page ∧ u.StageOk p (some stage) ∧
      ∀ c', (s.setConsumer partitionId c').flight page = ((held page c').map some).toList := by
  obtain ⟨f, hf, hcache, hok⟩ := h.flights page p hp hk (flight_ne_of_consumer hc)
  obtain ⟨rfl, -⟩ := flight_setConsumer hc hf none
  exact ⟨hf, hcache, hok, fun c' => (flight_setConsumer hc hf c').2⟩

/-- a set that is left as it is -/
theorem Scannable.same (h : Scannable s set u) (hp : s.pages[page]? = some p)
    (hbusy : s.flight page ≠ []) (p' : PDBPage C) (ha : Around s s' set page p p')
    (hset : s'.sets set = s.sets set)
    (hself : p.key.toSetKey = set → u.ListedIn p.key.pageId → s.cache p.key = some page →
      Unremoved (s.flight page) → s'.cache p.key = some page ∧ Unremoved (s'.flight page))
    (hflight : p.key.toSetKey = set → s'.flight page ≠ [] →
      ∃ f, s'.flight page = [f] ∧ s'.cache p.key = some page ∧ u.StageOk p' f)
    (hret : p.key.toSetKey = set → ∀ q r,
      s'.flushConsumers[q]? = some (some (page, .appended r)) →
        ∃ i c, r = some i ∧ u.file.load q i = some (p.key.pageId, c)) :
    Scannable s' set u :=
  h.around hp hbusy ha (hset.trans h.found) h.ordered (fun _ h => h) (fun _ _ h => h)
    (fun _ _ h => h) (fun _ _ _ h => h) hself hflight hret

theorem pop_scannable (h : Scannable s set u) {rest : List Nat}
    (hb : s.flushBuffer = page :: rest) (hc : s.flushConsumers[partitionId]? = some none) :
    Scannable ({ s with flushBuffer := rest }.setConsumer partitionId (some (page, .popped)))
      set u := by
  have hbusy : s.flight page ≠ [] := by
    unfold flight
    rw [hb, List.filter_cons_of_pos (by simp)]
    nofun
  have hlt : page < s.pages.length := by
    by_contra hge
    exact hbusy (h.known page (Nat.le_of_not_lt hge))
  have hp := List.getElem?_eq_getElem hlt
  have hstage : s.pages[page].key.toSetKey = set → s.flight page = [none] ∧
      s.cache s.pages[page].key = some page ∧ u.StageOk s.pages[page] none ∧
      ({ s with flushBuffer := rest }.setConsumer partitionId (some (page, .popped))).flight page =
        [some .popped] := by
    intro hk
    obtain ⟨f, hf, hcache, hok⟩ := h.flights page _ hp hk hbusy
    obtain ⟨rfl, hflight⟩ := flight_pop hb hc hf
    exact ⟨hf, hcache, hok, hflight⟩
  refine h.same hp hbusy s.pages[page] ⟨(List.set_getElem_self hlt).symm, rfl,
    fun _ _ _ => Iff.rfl, fun _ h => h, fun page' hne => flight_pop_of_ne hb hc fun e => hne e.symm,
    fun q page' st hne hq => ?_⟩ rfl (fun hk _ hcache _ => ?_) (fun hk _ => ?_)
    fun hk q r hq => ?_
  · obtain ⟨-, he⟩ | hq := getElem?_setConsumer hq
    · cases he
      exact absurd rfl hne
    · exact hq
  · exact ⟨hcache, Unremoved.of_eq (hstage hk).2.2.2 nofun nofun⟩
  · obtain ⟨-, hcache, hok, hflight⟩ := hstage hk
    exact ⟨_, hflight, hcache, hok⟩
  · obtain ⟨-, he⟩ | hq := getElem?_setConsumer hq
    · cases he
    · exact h.appended q page r _ hq hp hk

/-- a step about a page of another set -/
theorem Scannable.other (h : Scannable s set u) (hp : s.pages[page]? = some p)
    (hbusy : s.flight page ≠ []) {p' : PDBPage C} (ha : Around s s' set page p p')
    (hset : s'.sets set = s.sets set) (hk : p.key.toSetKey ≠ set) : Scannable s' set u :=
  h.same hp hbusy _ ha hset (fun e => absurd e hk) (fun e => absurd e hk) fun e => absurd e hk

/-- a page is held by one consumer -/
theorem Scannable.consumer_unique (h : Scannable s set u) {stage stage' : FlushStage} {q : Nat}
    (hc : s.flushConsumers[partitionId]? = some (some (page, stage)))
    (hc' : s.flushConsumers[q]? = some (some (page, stage'))) (hp : s.pages[page]? = some p)
    (hk : p.key.toSetKey = set) : stage' = stage := by
  obtain ⟨hf, -⟩ := h.of_consumer hc hp hk
  obtain ⟨hf', -⟩ := h.of_consumer hc' hp hk
  rw [hf] at hf'
  exact (Option.some.inj (List.cons.inj hf').1).symm

theorem Ordered.append (h : u.Ordered) {file : DataFile C} {id seq : Nat} {bytes : C}
    (hno : ¬ u.InFile id) (ha : u.file.appendPage partitionId id bytes = some (file, seq)) :
    ({ u with file } : UserSet C).Ordered := by
  refine ⟨h.table, fun q i q' i' id' c c' hl hl' => ?_, fun id' k hm hk => ?_⟩
  · have hl : file.load q i = some (id', c) := hl
    have hl' : file.load q' i' = some (id', c') := hl'
    rw [DataFile.load_appendPage ha] at hl hl'
    split at hl
    · next hqi =>
      obtain ⟨rfl, -⟩ := Prod.mk.inj (Option.some.inj hl)
      split at hl'
      · next hqi' => exact ⟨hqi.1.trans hqi'.1.symm, hqi.2.trans hqi'.2.symm⟩
      · exact absurd ⟨q', i', c', hl'⟩ hno
    · split at hl'
      · obtain ⟨rfl, -⟩ := Prod.mk.inj (Option.some.inj hl')
        exact absurd ⟨q, i, c, hl⟩ hno
      · exact h.once q i q' i' id' c c' hl hl'
  · obtain ⟨q, i, c, hplace, hl⟩ := h.flushed id' k hm hk
    exact ⟨q, i, c, hplace, DataFile.load_mono ha hl⟩

theorem append_scannable (h : Scannable s set u)
    (hc : s.flushConsumers[partitionId]? = some (some (page, .popped)))
    (hp : s.pages[page]? = some p) (hk : p.key.toSetKey = set) {bytes : C} {file : DataFile C}
    {ret : Nat} (ha : u.file.appendPage partitionId p.key.pageId bytes = some (file, ret)) :
    Scannable ((s.updateSet set { u with file }).setConsumer partitionId
      (some (page, .appended (some ret)))) set { u with file } := by
  obtain ⟨hf, hcache, ⟨hlisted, hno, -⟩, hset⟩ := h.of_consumer hc hp hk
  have hflight := hset (some (page, .appended (some ret)))
  rw [held_self] at hflight
  refine h.around hp (flight_ne_of_consumer hc)
    (Around.consumer hc hp set (some (.appended (some ret))) _) (Function.update_self ..)
    (Ordered.append h.ordered hno ha) (fun _ h => h) (fun _ _ h => h) (fun id hne hin => ?_)
    (fun _ _ _ he => DataFile.load_mono ha he) (fun _ _ hcache' _ => ⟨hcache', ?_⟩)
    (fun _ _ => ⟨_, hflight, hcache, hlisted⟩) fun _ q r hq => ?_
  · obtain ⟨q, i, c, hl⟩ := hin
    have hl : file.load q i = some (id, c) := hl
    rw [DataFile.load_appendPage ha] at hl
    split at hl
    · obtain ⟨rfl, -⟩ := Prod.mk.inj (Option.some.inj hl)
      have he : (⟨set, p.key.pageId⟩ : CacheKey) = p.key := CacheKey.ext' hk.symm rfl
      exact absurd he hne
    · exact ⟨q, i, c, hl⟩
  · exact Unremoved.of_eq hflight nofun nofun
  · obtain ⟨rfl, he⟩ | hq := getElem?_setConsumer hq
    · cases he
      exact ⟨ret, bytes, rfl, by rw [DataFile.load_appendPage ha, if_pos ⟨rfl, rfl⟩]⟩
    · cases h.consumer_unique hc hq hp hk

theorem listedIn_remove {id : Nat} {place : Option (Nat × Nat)} {id' : Nat} :
    (u.removePageFromDirtyPageSet id place).ListedIn id' ↔ id' ≠ id ∧ u.ListedIn id' := by
  unfold UserSet.ListedIn UserSet.removePageFromDirtyPageSet
  split
  · constructor
    · rintro ⟨k, hm, hk⟩
      obtain ⟨e, he, hek⟩ := List.mem_map.mp hm
      split at hek
      · cases hek
        cases hk
      · next hne =>
        obtain rfl := hek
        exact ⟨hne, k, he, hk⟩
    · rintro ⟨hne, k, hm, hk⟩
      exact ⟨k, List.mem_map.mpr ⟨_, hm, if_neg hne⟩, hk⟩
  · constructor
    · rintro ⟨k, hm, hk⟩
      obtain ⟨hm, hne⟩ := List.mem_filter.mp hm
      exact ⟨by simpa using hne, k, hm, hk⟩
    · rintro ⟨hne, k, hm, hk⟩
      exact ⟨k, List.mem_filter.mpr ⟨hm, by simpa using hne⟩, hk⟩

theorem file_remove (id : Nat) (place : Option (Nat × Nat)) :
    (u.removePageFromDirtyPageSet id place).file = u.file := by
  unfold UserSet.removePageFromDirtyPageSet
  split <;> rfl

theorem ids_remove_of_pinned (hpin : u.isPinned = true) (id : Nat) (place : Option (Nat × Nat)) :
    (u.removePageFromDirtyPageSet id place).dirtyPagesInPageCache.map (·.1) =
      u.dirtyPagesInPageCache.map (·.1) := by
  unfold UserSet.removePageFromDirtyPageSet
  rw [if_pos hpin, List.map_map]
  apply List.map_congr_left
  intro e _
  by_cases he : e.1 = id
  · simp [he]
  · simp [he]

theorem Ordered.remove (h : u.Ordered) {id q i : Nat} {c : C}
    (hload : u.file.load q i = some (id, c)) :
    (u.removePageFromDirtyPageSet id (some (q, i))).Ordered := by
  refine ⟨?_, by rw [file_remove]; exact h.once, fun id' k hm hk => ?_⟩
  · by_cases hpin : u.isPinned = true
    · rw [ids_remove_of_pinned hpin]
      exact h.table
    · unfold UserSet.removePageFromDirtyPageSet
      rw [if_neg hpin]
      exact h.table.sublist (List.filter_sublist.map _)
  · rw [file_remove]
    unfold UserSet.removePageFromDirtyPageSet at hm
    split at hm
    · obtain ⟨e, he, hek⟩ := List.mem_map.mp hm
      split at hek
      · cases hek
        exact ⟨q, i, c, rfl, hload⟩
      · obtain rfl := hek
        exact h.flushed id' k he hk
    · exact h.flushed id' k (List.mem_filter.mp hm).1 hk

theorem remove_scannable (h : Scannable s set u) {ret : Option Nat}
    (hc : s.flushConsumers[partitionId]? = some (some (page, .appended ret)))
    (hp : s.pages[page]? = some p) (hk : p.key.toSetKey = set) :
    Scannable ((s.updateSet set (u.removePageFromDirtyPageSet p.key.pageId
      (ret.map fun seq => (partitionId, seq)))).setConsumer partitionId (some (page, .removed))) set
      (u.removePageFromDirtyPageSet p.key.pageId (ret.map fun seq => (partitionId, seq))) := by
  obtain ⟨i, c, rfl, hload⟩ := h.appended partitionId page ret p hc hp hk
  obtain ⟨hf, hcache, -, hset⟩ := h.of_consumer hc hp hk
  have hflight := hset (some (page, .removed))
  rw [held_self] at hflight
  refine h.around hp (flight_ne_of_consumer hc) (Around.consumer hc hp set (some .removed) _)
    (Function.update_self ..) (Ordered.remove h.ordered hload)
    (fun _ hl => (listedIn_remove.mp hl).2) (fun id hne hl => ?_) (fun id _ hin => ?_)
    (fun _ _ _ he => by rwa [file_remove]) (fun _ hl => absurd rfl (listedIn_remove.mp hl).1)
    (fun _ _ => ⟨_, hflight, hcache, trivial⟩) fun _ q r hq => ?_
  · refine listedIn_remove.mpr ⟨?_, hl⟩
    rintro rfl
    exact hne (CacheKey.ext' hk.symm rfl)
  · unfold UserSet.InFile at hin
    rwa [file_remove] at hin
  · obtain ⟨-, he⟩ | hq := getElem?_setConsumer hq
    · cases he
    · rw [file_remove]
      exact h.appended q page r p hq hp hk

theorem free_scannable (h : Scannable s set u)
    (hc : s.flushConsumers[partitionId]? = some (some (page, .removed)))
    (hp : s.pages[page]? = some p) (bytes : Option C) :
    Scannable ((s.updatePage page fun p => { p with rawBytes := bytes }).setConsumer partitionId
      (some (page, .freed))) set u := by
  have ha : Around s ((s.updatePage page fun p => { p with rawBytes := bytes }).setConsumer
      partitionId (some (page, .freed))) set page p { p with rawBytes := bytes } := by
    have hc' := Around.consumer hc hp set (some .freed) s.sets
    exact ⟨updatePage_pages hp _, rfl, hc'.cache, hc'.cacheSelf, hc'.flight, hc'.consumers⟩
  by_cases hk : p.key.toSetKey = set
  · obtain ⟨hf, hcache, -, hset⟩ := h.of_consumer hc hp hk
    have hflight := hset (some (page, .freed))
    rw [held_self] at hflight
    refine h.same hp (flight_ne_of_consumer hc) _ ha rfl (fun _ _ _ hun => ?_)
      (fun _ _ => ⟨_, hflight, hcache, trivial⟩) fun _ q r hq => ?_
    · rw [hf] at hun
      exact absurd (List.mem_singleton.mpr rfl) hun.1
    · obtain ⟨-, he⟩ | hq := getElem?_setConsumer hq
      · cases he
      · cases h.consumer_unique hc hq hp hk
  · exact h.other hp (flight_ne_of_consumer hc) ha rfl hk

theorem unlock_scannable (h : Scannable s set u)
    (hc : s.flushConsumers[partitionId]? = some (some (page, .freed)))
    (hp : s.pages[page]? = some p) (evict : Bool) :
    Scannable (((if evict then s.removePage p.key else s).updatePage page fun p =>
      { p with inFlush := false, dirty := false }).setConsumer partitionId none) set u := by
  have hown : p.key.toSetKey = set → s.cache p.key = some page := fun hk =>
    (h.of_consumer hc hp hk).2.1
  have hsame : (if evict then s.removePage p.key else s) =
      { s with cache := (if evict then s.removePage p.key else s).cache } := by
    split <;> rfl
  rw [hsame]
  have ha : Around s (({ s with cache := (if evict then s.removePage p.key else s).cache }.updatePage
      page fun p => { p with inFlush := false, dirty := false }).setConsumer partitionId none) set page
      p { p with inFlush := false, dirty := false } := by
    have hc' := Around.consumer hc hp set none s.sets
    refine ⟨updatePage_pages hp _, rfl, fun id page' hne => ?_, fun id hid => ?_, hc'.flight,
      hc'.consumers⟩
    · show (if evict then s.removePage p.key else s).cache ⟨set, id⟩ = some page' ↔ _
      split
      · show Function.update s.cache p.key none ⟨set, id⟩ = some page' ↔ _
        by_cases hkey : (⟨set, id⟩ : CacheKey) = p.key
        · rw [hkey, Function.update_self, hown (by rw [← hkey])]
          exact ⟨nofun, fun e => absurd (Option.some.inj e).symm hne⟩
        · rw [Function.update_of_ne hkey]
      · exact Iff.rfl
    · have hid' : (if evict then s.removePage p.key else s).cache ⟨set, id⟩ = some page := hid
      split at hid'
      · have hid'' : Function.update s.cache p.key none ⟨set, id⟩ = some page := hid'
        by_cases hkey : (⟨set, id⟩ : CacheKey) = p.key
        · rw [hkey, Function.update_self] at hid''
          cases hid''
        · rwa [Function.update_of_ne hkey] at hid''
      · exact hid'
  by_cases hk : p.key.toSetKey = set
  · obtain ⟨hf, -, -, hset⟩ := h.of_consumer hc hp hk
    refine h.same hp (flight_ne_of_consumer hc) _ ha rfl (fun _ _ _ hun => ?_)
      (fun _ hne => absurd (hset none) hne) fun _ q r hq => ?_
    · rw [hf] at hun
      exact absurd (List.mem_singleton.mpr rfl) hun.2
    · obtain ⟨-, he⟩ | hq := getElem?_setConsumer hq
      · cases he
      · cases h.consumer_unique hc hq hp hk
  · exact h.other hp (flight_ne_of_consumer hc) ha rfl hk

end

/-! ## One step of a flush consumer -/

/-- what a flush may do to a set; `removed` is the page whose entry in the table it changes -/
structure FlushLe (removed : Option Nat) (u u' : UserSet C) : Prop where
  load : ∀ q i e, u.file.load q i = some e → u'.file.load q i = some e
  fresh : ∀ q i id c, u'.file.load q i = some (id, c) →
    u.file.load q i = some (id, c) ∨ ∃ k, (id, k) ∈ u.dirtyPagesInPageCache
  partitions : u'.file.partitions.length = u.file.partitions.length
  table : removed = none → u'.dirtyPagesInPageCache = u.dirtyPagesInPageCache
  pinned : u.isPinned = true →
    u'.dirtyPagesInPageCache.map (·.1) = u.dirtyPagesInPageCache.map (·.1)
  flushed : u.isPinned = true → ∀ id k, (id, k) ∈ u.dirtyPagesInPageCache → k.inCache = false →
    ∃ k', (id, k') ∈ u'.dirtyPagesInPageCache ∧ k'.inCache = false
  erased : u.isPinned = false → ∀ id, removed = some id →
    u'.dirtyPagesInPageCache = u.dirtyPagesInPageCache.filter fun e => e.1 ≠ id
  kept : ∀ id k, (id, k) ∈ u.dirtyPagesInPageCache →
    (∃ k', (id, k') ∈ u'.dirtyPagesInPageCache) ∨ u'.InFile id
  ids : ∀ id k, (id, k) ∈ u'.dirtyPagesInPageCache → ∃ k', (id, k') ∈ u.dirtyPagesInPageCache

theorem FlushLe.refl (u : UserSet C) : FlushLe none u u :=
  ⟨fun _ _ _ h => h, fun _ _ _ _ h => .inl h, rfl, fun _ => rfl, fun _ => rfl,
    fun _ _ k h hk => ⟨k, h, hk⟩, nofun, fun _ k h => .inl ⟨k, h⟩, fun _ k h => ⟨k, h⟩⟩

theorem FlushLe.append {u : UserSet C} {q id seq : Nat} {bytes : C} {file : DataFile C}
    (ha : u.file.appendPage q id bytes = some (file, seq)) (hl : u.ListedIn id) :
    FlushLe none u { u with file } := by
  refine ⟨fun _ _ _ h => DataFile.load_mono ha h, fun p i id' c h => ?_, ?_, fun _ => rfl,
    fun _ => rfl, fun _ _ k h hk => ⟨k, h, hk⟩, nofun, fun _ k h => .inl ⟨k, h⟩,
    fun _ k h => ⟨k, h⟩⟩
  · have h : file.load p i = some (id', c) := h
    rw [DataFile.load_appendPage ha] at h
    split at h
    · obtain ⟨rfl, -⟩ := Prod.mk.inj (Option.some.inj h)
      obtain ⟨k, hk, -⟩ := hl
      exact .inr ⟨k, hk⟩
    · exact .inl h
  · obtain ⟨pages, -, he⟩ := Option.map_eq_some_iff.mp ha
    obtain ⟨rfl, -⟩ := Prod.mk.inj he
    exact List.length_set

theorem FlushLe.remove {u : UserSet C} {id : Nat} {place : Option (Nat × Nat)}
    (hin : u.InFile id) : FlushLe (some id) u (u.removePageFromDirtyPageSet id place) := by
  have hfile := file_remove (u := u) id place
  refine ⟨fun _ _ _ h => by rwa [hfile], fun _ _ _ _ h => .inl (by rwa [hfile] at h),
    by rw [hfile], nofun, fun hpin => ids_remove_of_pinned hpin id place,
    fun hpin id' k hm hk => ?_, fun hpin id' he => ?_, fun id' k hm => ?_, fun id' k hm => ?_⟩
  · unfold UserSet.removePageFromDirtyPageSet
    rw [if_pos hpin]
    by_cases hid : id' = id
    · exact ⟨{ inCache := false, place }, List.mem_map.mpr ⟨_, hm, by rw [if_pos hid, hid]⟩, rfl⟩
    · exact ⟨k, List.mem_map.mpr ⟨_, hm, if_neg hid⟩, hk⟩
  · obtain rfl := Option.some.inj he
    unfold UserSet.removePageFromDirtyPageSet
    rw [if_neg (Bool.eq_false_iff.mp hpin)]
  · by_cases hid : id' = id
    · subst hid
      obtain ⟨q, i, c, hl⟩ := hin
      exact .inr ⟨q, i, c, by rwa [hfile]⟩
    · refine .inl ⟨k, ?_⟩
      unfold UserSet.removePageFromDirtyPageSet
      split
      · exact List.mem_map.mpr ⟨_, hm, if_neg hid⟩
      · exact List.mem_filter.mpr ⟨hm, by simpa using hid⟩
  · unfold UserSet.removePageFromDirtyPageSet at hm
    split at hm
    · obtain ⟨e, he, hek⟩ := List.mem_map.mp hm
      split at hek
      · next hid =>
        cases hek
        exact ⟨e.2, hid ▸ he⟩
      · exact ⟨k, hek ▸ he⟩
    · exact ⟨k, (List.mem_filter.mp hm).1⟩

/-- the append of a page of the set succeeds -/
def FlushFine (s : PangeaStorageServer C) (set : SetKey) : FlushOp → Prop
  | .appendPage partitionId fails => ∀ page p u,
      s.flushConsumers[partitionId]? = some (some (page, .popped)) → s.pages[page]? = some p →
        p.key.toSetKey = set → s.sets set = some u →
          fails = false ∧ partitionId < u.file.partitions.length
  | _ => True

section
variable {s s' : PangeaStorageServer C} {set : SetKey} {u : UserSet C} {partitionId : Nat}

theorem appendPage_scannable (h : Scannable s set u) {fails : Bool}
    (hf : s.FlushFine set (.appendPage partitionId fails))
    (hs : s.appendPage partitionId fails = some s') :
    ∃ u', Scannable s' set u' ∧ FlushLe none u u' := by
  unfold appendPage at hs
  split at hs
  · next page hc =>
    obtain ⟨p, hp, he⟩ := Option.map_eq_some_iff.mp hs
    have hbusy := flight_ne_of_consumer hc
    by_cases hk : p.key.toSetKey = set
    · obtain ⟨-, -, ⟨hlisted, -, hb⟩, -⟩ := h.of_consumer hc hp hk
      obtain ⟨bytes, hb⟩ := Option.ne_none_iff_exists'.mp hb
      obtain ⟨rfl, hpart⟩ := hf page p u hc hp hk h.found
      obtain ⟨file, ret, ha⟩ : ∃ file ret,
          u.file.appendPage partitionId p.key.pageId bytes = some (file, ret) := by
        unfold DataFile.appendPage
        rw [List.getElem?_eq_getElem hpart]
        exact ⟨_, _, rfl⟩
      rw [hk] at he
      simp only [h.found, hb, Bool.false_eq_true, if_false, ha] at he
      rw [← he]
      exact ⟨_, append_scannable h hc hp hk ha, FlushLe.append ha hlisted⟩
    · -- a page of another set
      refine ⟨u, ?_, FlushLe.refl u⟩
      rw [← he]
      split
      · split
        · exact h.other hp hbusy (Around.consumer hc hp set (some (.appended _)) _)
            (Function.update_of_ne (fun e => hk e.symm) _ _) hk
        · exact h.other hp hbusy (Around.consumer hc hp set (some (.appended none)) s.sets) rfl hk
      · exact h.other hp hbusy (Around.consumer hc hp set (some .removed) s.sets) rfl hk
  · cases hs

theorem removePage_scannable (h : Scannable s set u)
    (hs : s.removePageFromDirtyPageSet partitionId = some s') :
    ∃ u', Scannable s' set u' ∧
      FlushLe (s.removesFrom set (.removePageFromDirtyPageSet partitionId)) u u' := by
  unfold removePageFromDirtyPageSet at hs
  split at hs
  · next page ret hc =>
    obtain ⟨p, hp, he⟩ := Option.bind_eq_some_iff.mp hs
    obtain ⟨v, hv, rfl⟩ := Option.map_eq_some_iff.mp he
    have hremoves : s.removesFrom set (.removePageFromDirtyPageSet partitionId) =
        if p.key.toSetKey = set then some p.key.pageId else none := by
      unfold removesFrom
      simp only [hc, hp, Option.bind_some]
    rw [hremoves]
    by_cases hk : p.key.toSetKey = set
    · obtain ⟨i, c, -, hload⟩ := h.appended partitionId page ret p hc hp hk
      rw [hk, h.found] at hv
      obtain rfl := Option.some.inj hv
      rw [if_pos hk, hk]
      exact ⟨_, remove_scannable h hc hp hk, FlushLe.remove ⟨_, _, _, hload⟩⟩
    · rw [if_neg hk]
      exact ⟨u, h.other hp (flight_ne_of_consumer hc)
        (Around.consumer hc hp set (some .removed) _)
        (Function.update_of_ne (fun e => hk e.symm) _ _) hk, FlushLe.refl u⟩
  · cases hs

/-- **One step of a flush consumer.** -/
theorem flushStep_scannable (h : Scannable s set u) {op : FlushOp} (hf : s.FlushFine set op)
    (hs : s.flushStep op = some s') :
    ∃ u', Scannable s' set u' ∧ FlushLe (s.removesFrom set op) u u' := by
  cases op with
  | popPageFromHead partitionId =>
    have hs : s.popPageFromHead partitionId = some s' := hs
    unfold popPageFromHead at hs
    split at hs
    · next page rest hc hb =>
      rw [← Option.some.inj hs]
      exact ⟨u, pop_scannable h hb hc, FlushLe.refl u⟩
    · cases hs
  | appendPage partitionId fails => exact appendPage_scannable h hf hs
  | removePageFromDirtyPageSet partitionId => exact removePage_scannable h hs
  | freeFlushed partitionId =>
    have hs : s.freeFlushed partitionId = some s' := hs
    refine ⟨u, ?_, FlushLe.refl u⟩
    unfold freeFlushed at hs
    split at hs
    · next page hc =>
      obtain ⟨p, hp, rfl⟩ := Option.map_eq_some_iff.mp hs
      split
      · exact free_scannable h hc hp none
      · have hfree := free_scannable h hc hp p.rawBytes
        have hsame : s.updatePage page (fun q => { q with rawBytes := p.rawBytes }) = s := by
          have hpages := updatePage_pages hp fun q => { q with rawBytes := p.rawBytes }
          unfold updatePage at hpages ⊢
          dsimp only at hpages
          rw [hpages, ← pages_set_self hp]
        rwa [hsame] at hfree
    · cases hs
  | flushUnlock partitionId =>
    have hs : s.flushUnlock partitionId = some s' := hs
    unfold flushUnlock at hs
    split at hs
    · next page hc =>
      obtain ⟨p, hp, rfl⟩ := Option.map_eq_some_iff.mp hs
      exact ⟨u, unlock_scannable h hc hp (p.refCount = 0 && p.inEviction), FlushLe.refl u⟩
    · cases hs

end

end PangeaStorageServer
end Netsdb
