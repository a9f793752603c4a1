import Netsdb.Storage.PageFrame

/-!
# New pages and new contents

* `Inv.updateSet`   a set in which neither the file nor the table is changed;
* `Inv.pushPage`    a page is made, and put into the cache if there is none of its key;
* `newPage_inv`, `loadedPage_inv`, `enter_inv`, `write_inv`  the steps that do so.
-/

set_option linter.unusedSectionVars false

namespace Netsdb
namespace PangeaStorageServer

variable {C : Type*}

variable {s : PangeaStorageServer C} {last : Last C} {page : Nat} {p : PDBPage C}

/-- a set in which neither the file nor the table is changed -/
theorem Inv.updateSet (hi : Inv s last) {k : SetKey} {u u' : UserSet C} (hu : s.sets k = some u)
    (hfile : u'.file = u.file) (htable : u'.dirtyPagesInPageCache = u.dirtyPagesInPageCache)
    (hseq : u.seqId ≤ u'.seqId) : Inv (s.updateSet k u') last := by
  have hback : ∀ set v', (s.updateSet k u').sets set = some v' → ∃ v, s.sets set = some v ∧
      v'.file = v.file ∧ v'.dirtyPagesInPageCache = v.dirtyPagesInPageCache ∧
      v.seqId ≤ v'.seqId := by
    intro set v' hv'
    have hv : Function.update s.sets k (some u') set = some v' := hv'
    by_cases hk : set = k
    · subst hk
      rw [Function.update_self] at hv
      obtain rfl := Option.some.inj hv
      exact ⟨u, hu, hfile, htable, hseq⟩
    · rw [Function.update_of_ne hk] at hv
      exact ⟨v', hv, rfl, rfl, Nat.le_refl _⟩
  have hforth : ∀ set v, s.sets set = some v → ∃ v', (s.updateSet k u').sets set = some v' ∧
      v'.file = v.file ∧ v'.dirtyPagesInPageCache = v.dirtyPagesInPageCache ∧
      v.seqId ≤ v'.seqId := by
    intro set v hv
    by_cases hk : set = k
    · subst hk
      rw [hu] at hv
      obtain rfl := Option.some.inj hv
      exact ⟨u', Function.update_self .., hfile, htable, hseq⟩
    · exact ⟨v, (Function.update_of_ne hk _ _).trans hv, rfl, rfl, Nat.le_refl _⟩
  have hstored : ∀ key, s.Stored key → (s.updateSet k u').Stored key := by
    intro key ⟨v, hv, hh⟩
    obtain ⟨v', hv', hf, -⟩ := hforth _ v hv
    exact ⟨v', hv', by rwa [hf]⟩
  refine ⟨fun q r hr => (hi.pages q r hr).mono ⟨rfl, rfl, Iff.rfl, rfl, rfl, fun _ _ hl => ?_,
    fun he => ?_, hstored _⟩, hi.cached, hi.known, fun set v' q i id c hv' hload => ?_,
    fun set v' hv' => ?_, fun set v' hv' e he => ?_, fun key c hl => ?_, fun q r hr hw => ?_,
    fun key c hl hf => (hi.kept key c hl hf).imp_left (hstored key)⟩
  · obtain ⟨v, kk, hv, he, hin⟩ := hl
    obtain ⟨v', hv', -, ht, -⟩ := hforth _ v hv
    exact ⟨v', kk, hv', by rwa [ht], hin⟩
  · obtain ⟨v', kk, hv', he⟩ := he
    obtain ⟨v, hv, -, ht, -⟩ := hback _ v' hv'
    exact ⟨v, kk, hv, by rwa [← ht]⟩
  · obtain ⟨v, hv, hf, -⟩ := hback set v' hv'
    rw [hf] at hload
    exact hi.entries set v q i id c hv hload
  · obtain ⟨v, hv, hf, -⟩ := hback set v' hv'
    rw [hf]
    exact hi.indexed set v hv
  · obtain ⟨v, hv, -, ht, hs⟩ := hback set v' hv'
    rw [ht] at he
    exact Nat.lt_of_lt_of_le (hi.tabled set v hv e he) hs
  · obtain ⟨v, hv, hlt⟩ := hi.ids key c hl
    obtain ⟨v', hv', -, -, hs⟩ := hforth _ v hv
    exact ⟨v', hv', Nat.lt_of_lt_of_le hlt hs⟩
  · obtain ⟨hno, hone⟩ := hi.writers q r hr hw
    refine ⟨fun v' qq i c hv' hload => ?_, hone⟩
    obtain ⟨v, hv, hf, -⟩ := hback _ v' hv'
    rw [hf] at hload
    exact hno v qq i c hv hload

/-- a new page is made, and put into the cache if there is none of its key -/
theorem Inv.pushPage (hi : Inv s last) {last' : Last C}
    (hlast : ∀ key, key ≠ p.key → last' key = last key)
    (hothers : ∀ (q : Nat) (r : PDBPage C), s.pages[q]? = some r → r.key = p.key →
      last' p.key = last p.key ∧ r.writer = .unpinned ∧ p.writer = .unpinned)
    (hentries : ∀ u q i bytes, s.sets p.key.toSetKey = some u →
      u.file.load q i = some (p.key.pageId, bytes) →
        last' p.key = some bytes ∧ p.writer = .unpinned)
    (hid : ∃ u, s.sets p.key.toSetKey = some u ∧ p.key.pageId < u.seqId)
    (hkept : p.dirty = true ∨ last' p.key = last p.key)
    (hok : ∀ s' : PangeaStorageServer C, s'.sets = s.sets →
      s'.flight s.pages.length = [] → s'.evicting.count s.pages.length = 0 →
      (s.cache p.key = none → s'.cache p.key = some s.pages.length) →
        PageOk (s'.view last' s.pages.length p)) :
    Inv ({ s with pages := s.pages ++ [p] }.cachePage p.key s.pages.length) last' := by
  -- the cache is changed for this key only
  have hcache : ∀ key, key ≠ p.key →
      ({ s with pages := s.pages ++ [p] }.cachePage p.key s.pages.length).cache key =
        s.cache key := by
    intro key hk
    unfold cachePage
    split
    · rfl
    · exact Function.update_of_ne hk _ _
  have hold : ∀ key page', page' ≠ s.pages.length →
      (({ s with pages := s.pages ++ [p] }.cachePage p.key s.pages.length).cache key =
        some page' ↔ s.cache key = some page') := by
    intro key page' hne
    by_cases hk : key = p.key
    · subst hk
      unfold cachePage
      split
      · exact Iff.rfl
      · next hn =>
        show Function.update s.cache p.key _ p.key = _ ↔ _
        have hnone : s.cache p.key = none := Option.not_isSome_iff_eq_none.mp hn
        rw [Function.update_self, hnone]
        exact ⟨fun e => absurd (Option.some.inj e).symm hne, nofun⟩
    · rw [hcache key hk]
  have hnew : s.cache p.key = none →
      ({ s with pages := s.pages ++ [p] }.cachePage p.key s.pages.length).cache p.key =
        some s.pages.length := by
    intro hn
    have hn' : ({ s with pages := s.pages ++ [p] } : PangeaStorageServer C).cache p.key = none := hn
    unfold cachePage
    rw [hn', if_neg (by simp)]
    exact Function.update_self ..
  have hpages : ({ s with pages := s.pages ++ [p] }.cachePage p.key s.pages.length).pages =
      s.pages ++ [p] := by
    unfold cachePage
    split <;> rfl
  have hsets : ({ s with pages := s.pages ++ [p] }.cachePage p.key s.pages.length).sets =
      s.sets := by
    unfold cachePage
    split <;> rfl
  have hflight : ∀ q, ({ s with pages := s.pages ++ [p] }.cachePage p.key s.pages.length).flight q =
      s.flight q := by
    intro q
    unfold cachePage
    split <;> rfl
  have hevicting : ({ s with pages := s.pages ++ [p] }.cachePage p.key s.pages.length).evicting =
      s.evicting := by
    unfold cachePage
    split <;> rfl
  generalize ({ s with pages := s.pages ++ [p] }.cachePage p.key s.pages.length) = s' at *
  have hstored : ∀ key, s'.Stored key ↔ s.Stored key := by
    intro key
    unfold Stored
    rw [hsets]
  have hget : ∀ (q : Nat) (r : PDBPage C), s'.pages[q]? = some r →
      (q = s.pages.length ∧ r = p) ∨ (q ≠ s.pages.length ∧ s.pages[q]? = some r) := by
    intro q r hr
    rw [hpages] at hr
    rcases Nat.lt_trichotomy q s.pages.length with hlt | rfl | hgt
    · rw [List.getElem?_append_left hlt] at hr
      exact .inr ⟨Nat.ne_of_lt hlt, hr⟩
    · rw [List.getElem?_concat_length] at hr
      exact .inl ⟨rfl, (Option.some.inj hr).symm⟩
    · rw [List.getElem?_eq_none (by simp; omega)] at hr
      cases hr
  have hput : ∀ (q : Nat) (r : PDBPage C), s.pages[q]? = some r → s'.pages[q]? = some r := by
    intro q r hr
    obtain ⟨hlt, -⟩ := List.getElem?_eq_some_iff.mp hr
    rw [hpages, List.getElem?_append_left hlt, hr]
  have hself : s'.pages[s.pages.length]? = some p := by
    rw [hpages, List.getElem?_concat_length]
  have hlast' : ∀ key bytes, last' key = some bytes → key ≠ p.key → last key = some bytes :=
    fun key bytes h hk => (hlast key hk).symm.trans h
  obtain ⟨hn₁, hn₂⟩ := hi.known s.pages.length (Nat.le_refl _)
  constructor
  · intro q r hr
    obtain ⟨rfl, rfl⟩ | ⟨hne, hr⟩ := hget q r hr
    · exact hok s' hsets ((hflight _).trans hn₁) (by rw [hevicting]; exact hn₂) hnew
    · refine (hi.pages q r hr).mono ⟨rfl, ?_, hold _ _ hne, hflight q, by rw [view, hevicting]; rfl,
        fun _ _ hl => ?_, fun he => ?_, (hstored _).mpr⟩
      · show last' r.key = last r.key
        by_cases hk : r.key = p.key
        · rw [hk]
          exact (hothers q r hr hk).1
        · exact hlast _ hk
      · show s'.Listed r.key
        unfold Listed
        rw [hsets]
        exact hl
      · have he' : s'.Entered r.key := he
        unfold Entered at he'
        rw [hsets] at he'
        exact he'
  · intro key q hq
    by_cases hqn : q = s.pages.length
    · subst hqn
      by_cases hk : key = p.key
      · exact ⟨p, hself, hk.symm⟩
      · rw [hcache key hk] at hq
        obtain ⟨r, hr, -⟩ := hi.cached key _ hq
        rw [List.getElem?_eq_none (Nat.le_refl _)] at hr
        cases hr
    · obtain ⟨r, hr, hk⟩ := hi.cached key q ((hold key q hqn).mp hq)
      exact ⟨r, hput q r hr, hk⟩
  · intro q hq
    rw [hpages, List.length_append] at hq
    rw [hflight, hevicting]
    exact hi.known q (by omega)
  · intro set u q i id bytes hu hload
    rw [hsets] at hu
    by_cases hk : (⟨set, id⟩ : CacheKey) = p.key
    · rw [hk]
      refine (hentries u q i bytes (by rw [← hk]; exact hu) ?_).1
      rw [← hk]
      exact hload
    · rw [hlast _ hk]
      exact hi.entries set u q i id bytes hu hload
  · rw [hsets]
    exact hi.indexed
  · rw [hsets]
    exact hi.tabled
  · intro key bytes hl
    rw [hsets]
    by_cases hk : key = p.key
    · rw [hk]
      exact hid
    · exact hi.ids key bytes (hlast' key bytes hl hk)
  · intro q r hr hw
    rw [hsets]
    obtain ⟨rfl, rfl⟩ | ⟨hne, hr⟩ := hget q r hr
    · refine ⟨fun u qq i bytes hu hload => hw (hentries u qq i bytes hu hload).2,
        fun q' r' hr' hk' => ?_⟩
      obtain ⟨rfl, -⟩ | ⟨-, hr'⟩ := hget q' r' hr'
      · rfl
      · exact absurd (hothers q' r' hr' hk').2.2 hw
    · obtain ⟨hno, hone⟩ := hi.writers q r hr hw
      refine ⟨hno, fun q' r' hr' hk' => ?_⟩
      obtain ⟨-, rfl⟩ | ⟨-, hr'⟩ := hget q' r' hr'
      · exact absurd (hothers q r hr hk'.symm).2.1 hw
      · exact hone q' r' hr' hk'
  · intro key bytes hl hf
    have hkeep : last key = some bytes → s'.Stored key ∨
        ∃ (q : Nat) (r : PDBPage C), s'.pages[q]? = some r ∧ r.key = key ∧ r.dirty = true := by
      intro hl'
      obtain hst | ⟨q, r, hr, hk, hd⟩ := hi.kept key bytes hl' hf
      · exact .inl ((hstored key).mpr hst)
      · exact .inr ⟨q, r, hput q r hr, hk, hd⟩
    by_cases hk : key = p.key
    · obtain hd | he := hkept
      · exact .inr ⟨_, p, hself, hk.symm, hd⟩
      · exact hkeep (by rw [hk, ← he, ← hk]; exact hl)
    · exact hkeep (hlast' key bytes hl hk)

/-- an empty page of the next id -/
theorem newPage_inv [Inhabited C] (hi : Inv s last) {set : SetKey}
    {u : UserSet C} (hu : s.sets set = some u) :
    s.cache ⟨set, u.seqId⟩ = none ∧
      Inv ({ s.updateSet set { u with seqId := u.seqId + 1 } with
          pages := s.pages ++ [newPage ⟨set, u.seqId⟩] }.cachePage ⟨set, u.seqId⟩ s.pages.length)
        (Function.update last ⟨set, u.seqId⟩ (some default)) := by
  have hfresh : last ⟨set, u.seqId⟩ = none := by
    cases hl : last ⟨set, u.seqId⟩ with
    | none => rfl
    | some c =>
      obtain ⟨v, hv, hlt⟩ := hi.ids _ c hl
      obtain rfl := Option.some.inj (hu.symm.trans hv)
      exact absurd hlt (Nat.lt_irrefl _)
  have hkeys : ∀ (q : Nat) (r : PDBPage C), s.pages[q]? = some r → r.key ≠ ⟨set, u.seqId⟩ := by
    intro q r hr hk
    obtain ⟨c, hc⟩ := (hi.pages q r hr).last
    have hc' : last r.key = some c := hc
    rw [hk, hfresh] at hc'
    cases hc'
  have hcache : s.cache ⟨set, u.seqId⟩ = none := by
    cases hc : s.cache ⟨set, u.seqId⟩ with
    | none => rfl
    | some q =>
      obtain ⟨r, hr, hk⟩ := hi.cached _ q hc
      exact absurd hk (hkeys q r hr)
  refine ⟨hcache, ?_⟩
  have hi' : Inv (s.updateSet set { u with seqId := u.seqId + 1 }) last :=
    hi.updateSet hu rfl rfl (Nat.le_succ _)
  have hu' : (s.updateSet set { u with seqId := u.seqId + 1 }).sets set =
      some { u with seqId := u.seqId + 1 } := Function.update_self ..
  refine hi'.pushPage (p := newPage ⟨set, u.seqId⟩) (fun key hk => Function.update_of_ne hk _ _)
    (fun q r hr hk => absurd hk (hkeys q r hr)) (fun v q i c hv hload => ?_)
    ⟨_, hu', Nat.lt_succ_self _⟩ (.inl rfl) fun s' hsets hfl hev hnew => ?_
  · have hl := hi'.entries _ v q i _ c hv hload
    have hl' : last ⟨set, u.seqId⟩ = some c := hl
    rw [hfresh] at hl'
    cases hl'
  · have hc : s'.cache ⟨set, u.seqId⟩ = some s.pages.length := hnew hcache
    have hev' : ¬ 0 < s'.evicting.count s.pages.length := Nat.not_lt.mpr (Nat.le_of_eq hev)
    refine ⟨⟨default, Function.update_self ..⟩, fun c hc => ?_, fun _ => nofun,
      fun _ => Nat.zero_lt_one, fun _ => ⟨rfl, rfl⟩, fun _ => hfl, nofun, fun _ => ?_,
      hev.trans_le (Nat.zero_le 1), fun h => absurd h hev', fun _ _ => hc, fun _ => nofun, fun _ => nofun,
      fun _ _ _ => ⟨nofun, .inl rfl⟩, fun stage hst => ?_⟩
    · obtain rfl := Option.some.inj hc
      exact Function.update_self ..
    · rintro ⟨v, k, hv, he⟩
      rw [hsets] at hv
      obtain rfl := Option.some.inj (hu'.symm.trans hv)
      exact absurd (hi.tabled set u hu _ he) (Nat.lt_irrefl _)
    · cases hfl.symm.trans hst

/-- a page read from the file -/
theorem loadedPage_inv (hi : Inv s last) {set : SetKey} {u : UserSet C}
    (hu : s.sets set = some u) {q i id : Nat} {bytes : C}
    (hload : u.file.load q i = some (id, bytes)) :
    Inv ({ s with pages := s.pages ++ [loadedPage ⟨set, id⟩ bytes] }.cachePage ⟨set, id⟩
      s.pages.length) last := by
  have hlast : last ⟨set, id⟩ = some bytes := hi.entries set u q i id bytes hu hload
  obtain ⟨v, hv, hlt⟩ := hi.ids _ bytes hlast
  refine hi.pushPage (p := loadedPage ⟨set, id⟩ bytes) (fun _ _ => rfl) (fun q' r hr hk => ?_)
    (fun v' q' i' c hv' hload' => ⟨?_, rfl⟩) ⟨v, hv, hlt⟩ (.inr rfl)
    fun s' hsets hfl hev hnew => ?_
  · refine ⟨rfl, ?_, rfl⟩
    by_contra hw
    refine (hi.writers q' r hr hw).1 u q i bytes ?_ ?_
    · rw [hk]
      exact hu
    · rw [hk]
      exact hload
  · exact hi.entries set v' q' i' id c hv' hload'
  · have hev' : ¬ 0 < s'.evicting.count s.pages.length := Nat.not_lt.mpr (Nat.le_of_eq hev)
    refine ⟨⟨bytes, hlast⟩, fun c hc => ?_, fun _ => nofun, fun h => absurd rfl h,
      fun h => absurd rfl h, fun _ => hfl, nofun, nofun, hev.trans_le (Nat.zero_le 1),
      fun h => absurd h hev', fun _ => nofun, fun _ => nofun, fun _ _ => ?_, fun _ => nofun,
      fun stage hst => ?_⟩
    · obtain rfl := Option.some.inj hc
      exact hlast
    · exact ⟨u, by rw [hsets]; exact hu, (hi.indexed set u hu).has q i id bytes hload⟩
    · cases hfl.symm.trans hst

/-- the page is entered into the table of dirty pages -/
theorem enter_inv (hi : Inv s last) (hp : s.pages[page]? = some p) (hw : p.writer = .adding)
    {u : UserSet C} (hu : s.sets p.key.toSetKey = some u) :
    Inv ((s.updateSet p.key.toSetKey (u.addPageToDirtyPageSet p.key.pageId)).updatePage page fun p =>
      { p with writer := .writing }) last := by
  have hok := hi.pages page p hp
  have hne : p.writer ≠ .unpinned := by rw [hw]; nofun
  obtain ⟨hd, hfl⟩ := hok.writing hne
  have hidle := hok.idle hfl
  have hno : u.dirtyPagesInPageCache.any (fun e => e.1 = p.key.pageId) = false := by
    rw [List.any_eq_false]
    intro e he hid
    exact hok.adding hw ⟨u, e.2, hu, by rw [← of_decide_eq_true hid]; exact he⟩
  have htable : (u.addPageToDirtyPageSet p.key.pageId) = { u with
      dirtyPagesInPageCache :=
        u.dirtyPagesInPageCache ++ [(p.key.pageId, { inCache := true, place := none })] } := by
    rw [UserSet.addPageToDirtyPageSet, hno]
    rfl
  rw [htable]
  obtain ⟨c, hlast⟩ := hok.last
  obtain ⟨v, hv, hlt⟩ := hi.ids p.key c hlast
  obtain rfl := Option.some.inj (hu.symm.trans hv)
  refine hi.change { p with writer := .writing } hp
    ⟨updatePage_pages hp _, rfl, fun _ => hne, fun _ h => .inl h, fun _ _ _ => Iff.rfl,
      fun _ h => h, fun _ _ => rfl, fun _ _ => rfl,
      sets_update hu ⟨Nat.le_refl _, fun _ _ _ _ h => .inl h, fun h => h, fun _ h => h,
        fun h e he => ?_⟩, fun key ⟨w, k, hkw, he, hin⟩ => .inl ?_, fun key ⟨w, k, hkw, he⟩ => ?_⟩ ?_
  · rcases List.mem_append.mp he with he | he
    · exact h e he
    · rw [List.mem_singleton.mp he]
      exact hlt
  · by_cases hks : key.toSetKey = p.key.toSetKey
    · rw [hks, hu] at hkw
      obtain rfl := Option.some.inj hkw
      exact ⟨_, k, by rw [hks]; exact Function.update_self .., List.mem_append_left _ he, hin⟩
    · exact ⟨w, k, (Function.update_of_ne hks _ _).trans hkw, he, hin⟩
  · by_cases hks : key.toSetKey = p.key.toSetKey
    · have hkw' : Function.update s.sets p.key.toSetKey _ key.toSetKey = some w := hkw
      rw [hks, Function.update_self] at hkw'
      obtain rfl := Option.some.inj hkw'
      rcases List.mem_append.mp he with he | he
      · exact .inl ⟨u, k, by rw [hks]; exact hu, he⟩
      · have hid : key.pageId = p.key.pageId := (Prod.mk.inj (List.mem_singleton.mp he)).1
        exact .inr ⟨CacheKey.ext' hks hid, hne⟩
    · exact .inl ⟨w, k, (Function.update_of_ne hks _ _).symm.trans hkw, he⟩
  · refine ⟨hok.last, hok.bytes, hok.pinned, fun _ => hok.pins hne, fun _ => ⟨hd, hfl⟩, hok.idle,
      hok.busy, nofun, hok.once, hok.evicting, hok.cached, hok.freed, fun hk hdd => ?_,
      fun hk hdd hwait => ⟨(hok.waiting hk hdd hwait).1, .inr ?_⟩, fun stage hst => ?_⟩
    · cases hd.symm.trans hdd
    · exact ⟨_, _, Function.update_self .., List.mem_append_right _ (List.mem_singleton.mpr rfl), rfl⟩
    · cases hidle.symm.trans hst

/-- the page is written to -/
theorem write_inv (hi : Inv s last) (hp : s.pages[page]? = some p) (hw : p.writer = .writing)
    (bytes : C) :
    Inv (s.updatePage page fun p => { p with rawBytes := some bytes })
      (Function.update last p.key (some bytes)) := by
  have hok := hi.pages page p hp
  have hne : p.writer ≠ .unpinned := by rw [hw]; nofun
  obtain ⟨hno, hone⟩ := hi.writers page p hp hne
  obtain ⟨hd, hfl⟩ := hok.writing hne
  have hidle := hok.idle hfl
  -- no other page and no file has the key
  obtain ⟨hlt, -⟩ := List.getElem?_eq_some_iff.mp hp
  have hpages := updatePage_pages hp fun p => { p with rawBytes := some bytes }
  have hget : ∀ (q : Nat) (r : PDBPage C),
      (s.updatePage page fun p => { p with rawBytes := some bytes }).pages[q]? = some r →
        (q = page ∧ r = { p with rawBytes := some bytes }) ∨
          (q ≠ page ∧ s.pages[q]? = some r ∧ r.key ≠ p.key) := by
    intro q r hr
    rw [hpages, List.getElem?_set] at hr
    by_cases hq : page = q
    · rw [if_pos hq, if_pos hlt] at hr
      exact .inl ⟨hq.symm, (Option.some.inj hr).symm⟩
    · rw [if_neg hq] at hr
      exact .inr ⟨fun e => hq e.symm, hr, fun hk => hq (hone q r hr hk).symm⟩
  have hput : ∀ (q : Nat) (r : PDBPage C), s.pages[q]? = some r →
      ∃ r', (s.updatePage page fun p => { p with rawBytes := some bytes }).pages[q]? = some r' ∧
        r'.key = r.key ∧ r'.dirty = r.dirty := by
    intro q r hr
    rw [hpages, List.getElem?_set]
    by_cases hq : page = q
    · subst hq
      rw [hp] at hr
      obtain rfl := Option.some.inj hr
      exact ⟨{ p with rawBytes := some bytes }, by rw [if_pos rfl, if_pos hlt], rfl, rfl⟩
    · exact ⟨r, by rw [if_neg hq, hr], rfl, rfl⟩
  refine ⟨fun q r hr => ?_, fun key q hq => ?_, fun q hq => ?_, fun set u q i id c hu hload => ?_,
    hi.indexed, hi.tabled, fun key c hl => ?_, fun q r hr hwr => ?_, fun key c hl hf => ?_⟩
  · obtain ⟨rfl, rfl⟩ | ⟨-, hr, hk⟩ := hget q r hr
    · refine ⟨⟨bytes, Function.update_self ..⟩, fun c hc => ?_, fun _ => nofun, hok.pins,
        hok.writing, hok.idle, hok.busy, hok.adding, hok.once, fun he => ?_, hok.cached,
        fun _ => nofun, hok.clean, fun hk hd hwait => ⟨nofun, (hok.waiting hk hd hwait).2⟩,
        hok.flushed⟩
      · obtain rfl := Option.some.inj hc
        exact Function.update_self ..
      · exact absurd (hok.evicting he).1 (Nat.ne_of_gt (hok.pins hne))
    · exact (hi.pages q r hr).mono ⟨rfl, Function.update_of_ne hk _ _, Iff.rfl, rfl, rfl,
        fun _ _ h => h, fun h => h, fun h => h⟩
  · obtain ⟨r, hr, hk⟩ := hi.cached key q hq
    obtain ⟨r', hr', hk', -⟩ := hput q r hr
    exact ⟨r', hr', hk'.trans hk⟩
  · rw [hpages, List.length_set] at hq
    exact hi.known q hq
  · rw [Function.update_of_ne]
    · exact hi.entries set u q i id c hu hload
    · rintro hk
      refine hno u q i c ?_ ?_
      · rw [← hk]
        exact hu
      · rw [← hk]
        exact hload
  · by_cases hk : key = p.key
    · obtain ⟨c', hc'⟩ := hok.last
      rw [hk]
      exact hi.ids p.key c' hc'
    · rw [Function.update_of_ne hk] at hl
      exact hi.ids key c hl
  · obtain ⟨q₀, hr₀, hk₀, hw₀⟩ : ∃ r₀, s.pages[q]? = some r₀ ∧ r₀.key = r.key ∧
        r₀.writer ≠ .unpinned := by
      obtain ⟨rfl, rfl⟩ | ⟨-, hr, -⟩ := hget q r hr
      · exact ⟨p, hp, rfl, hne⟩
      · exact ⟨r, hr, rfl, hwr⟩
    obtain ⟨hno', hone'⟩ := hi.writers q q₀ hr₀ hw₀
    rw [← hk₀]
    refine ⟨hno', fun q' r' hr' hk' => ?_⟩
    obtain ⟨rfl, rfl⟩ | ⟨-, hr', -⟩ := hget q' r' hr'
    · exact hone' q' p hp hk'
    · exact hone' q' r' hr' hk'
  · have hsome : ∃ c', last key = some c' := by
      by_cases hk : key = p.key
      · rw [hk]
        exact hok.last
      · rw [Function.update_of_ne hk] at hl
        exact ⟨c, hl⟩
    obtain ⟨c', hc'⟩ := hsome
    obtain hst | ⟨q, r, hr, hk, hdr⟩ := hi.kept key c' hc' hf
    · exact .inl hst
    · obtain ⟨r', hr', hk', hd'⟩ := hput q r hr
      exact .inr ⟨q, r', hr', hk'.trans hk, hd'.trans hdr⟩

end PangeaStorageServer
end Netsdb
