import Netsdb.Lib.Pages
import Mathlib.GroupTheory.GroupAction.Ring

/-!
# Groups of items on pages

Each group begins on a new page.

* `fillGroups`   the groups are filled one after another;
* `HasRoom`      a page has fewer than `l` items after that; it depends on the sizes only;
* `shifted`      each group without its first item, and with the first item of the next group.
-/

set_option linter.unusedSectionVars false

namespace Pages
variable {α : Type*} [DecidableEq α] {es : List (α × ℕ)} {a : α} {l p base : ℕ}
  {g : List α} {gs : List (List α)}

def fillGroups (l : ℕ) : ℕ → List (List α) → List (α × ℕ)
  | _, [] => []
  | base, g :: gs => fill l base g ++ fillGroups l (base + g.length ⌈/⌉ l) gs

/-- how many pages groups of these sizes have -/
def pagesOf (l : ℕ) (sizes : List ℕ) : ℕ := (sizes.map (· ⌈/⌉ l)).sum

/-- the page is behind the last one, or is the last one of a group that does not fill it -/
def HasRoom (l : ℕ) : List ℕ → ℕ → Prop
  | [], _ => True
  | n :: ns, p => if p < n ⌈/⌉ l then p + 1 = n ⌈/⌉ l ∧ ¬ l ∣ n else HasRoom l ns (p - n ⌈/⌉ l)

instance decidableHasRoom (l : ℕ) : (ns : List ℕ) → (p : ℕ) → Decidable (HasRoom l ns p)
  | [], _ => .isTrue trivial
  | n :: ns, p =>
    have := decidableHasRoom l ns (p - n ⌈/⌉ l)
    inferInstanceAs (Decidable (if p < n ⌈/⌉ l then p + 1 = n ⌈/⌉ l ∧ ¬ l ∣ n else
      HasRoom l ns (p - n ⌈/⌉ l)))

theorem arrivals_append (es es' : List (α × ℕ)) (p : ℕ) :
    arrivals (es ++ es') p = arrivals es p ++ arrivals es' p := by
  rw [arrivals, List.filter_append, List.map_append]
  rfl

theorem map_fst_fill (l base : ℕ) (items : List α) : (fill l base items).map Prod.fst = items := by
  rw [fill, List.map_map]
  exact List.zipIdx_map_fst 0 items

theorem pagesOf_cons (l n : ℕ) (ns : List ℕ) : pagesOf l (n :: ns) = n ⌈/⌉ l + pagesOf l ns := by
  rw [pagesOf, List.map_cons, List.sum_cons]
  rfl

theorem arrivals_fillGroups_before (hl : 0 < l) (gs : List (List α)) :
    ∀ {base : ℕ}, p < base → arrivals (fillGroups l base gs) p = [] := by
  induction gs with
  | nil => exact fun _ => rfl
  | cons g gs ih =>
    intro base hp
    rw [fillGroups, arrivals_append, arrivals_fill_before hl hp, ih (Nat.lt_add_right _ hp),
      List.append_nil]

theorem arrivals_fill_behind (hl : 0 < l) (h : base + g.length ⌈/⌉ l ≤ p) :
    arrivals (fill l base g) p = [] := by
  refine List.eq_nil_iff_forall_not_mem.mpr fun a ha => ?_
  exact absurd (fill_range hl (mem_arrivals.mp ha)).2 (Nat.not_lt_of_le h)

/-- the page `q` of a group of `n` items -/
theorem arrivals_lt_iff (hl : 0 < l) {n q : ℕ} (hq : q < n ⌈/⌉ l) :
    min n (q * l + l) - q * l < l ↔ q + 1 = n ⌈/⌉ l ∧ ¬ l ∣ n := by
  have hlt : l * q < n := by
    by_contra hnot
    exact absurd ((ceilDiv_le_iff_le_mul hl).mpr (Nat.le_of_not_lt hnot)) (Nat.not_le_of_lt hq)
  rw [Nat.mul_comm] at hlt
  have hmin : min n (q * l + l) - q * l < l ↔ n < q * l + l := by omega
  rw [hmin]
  constructor
  · intro hn
    have hle : n ⌈/⌉ l ≤ q + 1 := by
      refine (ceilDiv_le_iff_le_mul hl).mpr ?_
      rw [Nat.mul_comm, Nat.succ_mul]
      exact hn.le
    refine ⟨Nat.le_antisymm hq hle, ?_⟩
    rintro ⟨k, rfl⟩
    have h₁ : q < k := Nat.lt_of_mul_lt_mul_left (a := l) (by rw [Nat.mul_comm]; exact hlt)
    have h₂ : k < q + 1 := by
      refine Nat.lt_of_mul_lt_mul_left (a := l) ?_
      rw [Nat.mul_comm l (q + 1), Nat.succ_mul]
      exact hn
    omega
  · rintro ⟨heq, hdvd⟩
    have hle : n ≤ l * (q + 1) := (ceilDiv_le_iff_le_mul hl).mp heq.ge
    have hne : n ≠ l * (q + 1) := fun h => hdvd ⟨q + 1, h⟩
    rw [Nat.mul_comm, Nat.succ_mul] at hle hne
    omega

theorem arrivals_fillGroups (hl : 0 < l) (gs : List (List α)) : ∀ (base q : ℕ),
    (arrivals (fillGroups l base gs) (base + q)).length ≤ l ∧
      ((arrivals (fillGroups l base gs) (base + q)).length < l ↔ HasRoom l (gs.map List.length) q) ∧
      (q < pagesOf l (gs.map List.length) ↔ arrivals (fillGroups l base gs) (base + q) ≠ []) := by
  induction gs with
  | nil =>
    intro base q
    refine ⟨Nat.zero_le _, iff_of_true hl trivial, iff_of_false (Nat.not_lt_zero q) ?_⟩
    exact fun h => h rfl
  | cons g gs ih =>
    intro base q
    rw [fillGroups, arrivals_append, List.map_cons, HasRoom, pagesOf_cons]
    by_cases hq : q < g.length ⌈/⌉ l
    · have hlen := length_arrivals_fill base hl g q
      rw [arrivals_fillGroups_before hl gs (Nat.add_lt_add_left hq base), List.append_nil, hlen,
        if_pos hq]
      exact ⟨by omega, arrivals_lt_iff hl hq,
        iff_of_true (Nat.lt_add_right _ hq) (arrivals_fill_ne hl base hq)⟩
    · obtain ⟨r, rfl⟩ := Nat.exists_eq_add_of_le (Nat.le_of_not_lt hq)
      rw [arrivals_fill_behind hl (Nat.add_le_add_left (Nat.le_add_right _ _) base), List.nil_append,
        if_neg hq, ← Nat.add_assoc, Nat.add_sub_cancel_left, Nat.add_lt_add_iff_left]
      exact ih _ r

/-! ## Shifted groups -/

def shifted : List (List α) → List (List α)
  | [] => []
  | [g] => [g.tail]
  | g :: g' :: gs => (g.tail ++ g'.take 1) :: shifted (g' :: gs)

/-- the first item of each group comes on the last page before the group; for the first group this is
the page `c` -/
def fillShifted (l : ℕ) : ℕ → ℕ → List (List α) → List (α × ℕ)
  | _, _, [] => []
  | c, base, [] :: gs => fillShifted l c base gs
  | c, base, (a :: rest) :: gs =>
    (a, c) :: fill l base rest ++
      fillShifted l (base + (rest.length + 1) ⌈/⌉ l - 1) (base + (rest.length + 1) ⌈/⌉ l) gs

theorem fillShifted_filter (l : ℕ) (gs : List (List α)) : ∀ c base,
    fillShifted l c base gs = fillShifted l c base (gs.filter (· ≠ [])) := by
  induction gs with
  | nil => exact fun _ _ => rfl
  | cons g gs ih =>
    intro c base
    cases g with
    | nil =>
      rw [fillShifted, List.filter_cons_of_neg (by simp)]
      exact ih c base
    | cons a rest =>
      rw [List.filter_cons_of_pos (by simp), fillShifted, fillShifted, ih]

theorem fill_concat (l base : ℕ) (items : List α) (a : α) :
    fill l base (items ++ [a]) = fill l base items ++ [(a, base + items.length / l)] := by
  rw [fill, List.zipIdx_append, List.map_append, Nat.zero_add]
  rfl

/-- **The shift**: but for the first item of all, the groups are filled as if each had given its first
item to the group before it. -/
theorem fillShifted_eq (hl : 0 < l) (gs : List (List α)) : ∀ (c base : ℕ) (a : α) (rest : List α),
    (∀ g ∈ gs, g ≠ []) → fillShifted l c base ((a :: rest) :: gs) =
      (a, c) :: fillGroups l base (shifted ((a :: rest) :: gs)) := by
  induction gs with
  | nil =>
    intro c base a rest _
    rw [fillShifted, fillShifted, shifted, fillGroups, fillGroups]
    rfl
  | cons g gs ih =>
    intro c base a rest hne
    cases g with
    | nil => exact absurd rfl (hne [] List.mem_cons_self)
    | cons a' rest' =>
      have hlast : base + (rest.length + 1) ⌈/⌉ l - 1 = base + rest.length / l := by
        rw [succ_ceilDiv hl]
        rfl
      rw [fillShifted, ih _ _ a' rest' fun g hg => hne g (List.mem_cons_of_mem _ hg), hlast]
      show _ = (a, c) :: fillGroups l base ((rest ++ [a']) :: shifted ((a' :: rest') :: gs))
      rw [fillGroups, fill_concat, List.length_append, List.length_singleton, List.append_assoc]
      rfl

/-- the shift leaves at most one page empty -/
theorem pagesOf_shifted (hl : 0 < l) (gs : List (List α)) : ∀ (a : α) (rest : List α),
    (∀ g ∈ gs, g ≠ []) →
    pagesOf l ((shifted ((a :: rest) :: gs)).map List.length) ≤
        pagesOf l (((a :: rest) :: gs).map List.length) ∧
      pagesOf l (((a :: rest) :: gs).map List.length) ≤
        pagesOf l ((shifted ((a :: rest) :: gs)).map List.length) + 1 := by
  induction gs with
  | nil =>
    intro a rest _
    have hone : (rest.length + 1) ⌈/⌉ l ≤ rest.length ⌈/⌉ l + 1 := by
      rw [succ_ceilDiv hl]
      have hle : rest.length ⌊/⌋ l ≤ rest.length ⌈/⌉ l := floorDiv_le_ceilDiv
      rw [Nat.floorDiv_eq_div] at hle
      exact Nat.succ_le_succ hle
    have hmono : rest.length ⌈/⌉ l ≤ (rest.length + 1) ⌈/⌉ l :=
      (gc_mul_ceilDiv hl).monotone_l (Nat.le_succ _)
    exact ⟨hmono, hone⟩
  | cons g gs ih =>
    intro a rest hne
    cases g with
    | nil => exact absurd rfl (hne [] List.mem_cons_self)
    | cons a' rest' =>
      have hih := ih a' rest' fun g hg => hne g (List.mem_cons_of_mem _ hg)
      have hlen : (rest ++ [a']).length = (a :: rest).length := by
        rw [List.length_append, List.length_singleton, List.length_cons]
      show pagesOf l ((rest ++ [a']).length :: (shifted ((a' :: rest') :: gs)).map List.length) ≤
          pagesOf l ((a :: rest).length :: ((a' :: rest') :: gs).map List.length) ∧
        pagesOf l ((a :: rest).length :: ((a' :: rest') :: gs).map List.length) ≤
          pagesOf l ((rest ++ [a']).length :: (shifted ((a' :: rest') :: gs)).map List.length) + 1
      rw [pagesOf_cons, pagesOf_cons, hlen]
      omega

theorem ceilDiv_sum_le (hl : 0 < l) (sizes : List ℕ) : sizes.sum ⌈/⌉ l ≤ pagesOf l sizes := by
  refine (ceilDiv_le_iff_le_mul hl).mpr ?_
  induction sizes with
  | nil => exact Nat.zero_le _
  | cons n ns ih =>
    have hn : n ≤ l * (n ⌈/⌉ l) := (ceilDiv_le_iff_le_mul hl).mp (Nat.le_refl _)
    rw [List.sum_cons, pagesOf_cons, Nat.mul_add]
    exact Nat.add_le_add hn ih

/-! ## One more item -/

/-- as many pages have items -/
def Fills (P : Packing α) (n : ℕ) : Prop := ∃ F : Finset ℕ, (∀ p, p ∈ F ↔ P p ≠ ∅) ∧ F.card = n

/-- no item is on two pages -/
def OnePage (es : List (α × ℕ)) : Prop := ∀ e ∈ es, ∀ e' ∈ es, e.1 = e'.1 → e.2 = e'.2

def empty : Packing α := fun _ => ∅

variable {c n : ℕ}

theorem put_empty_ne : put empty es p ≠ ∅ ↔ arrivals es p ≠ [] := by
  rw [put, empty, Finset.empty_union, Ne, List.toFinset_eq_empty_iff]

/-- the groups with one more item on page `c` are within the capacity, unless the page is full of other
items -/
theorem within_cons_iff (hl : 0 < l) (gs : List (List α)) (a : α) (c : ℕ) :
    Within l (put empty ((a, c) :: fillGroups l 0 gs)) ↔
      HasRoom l (gs.map List.length) c ∨ a ∈ arrivals (fillGroups l 0 gs) c ∨
        ¬ (arrivals (fillGroups l 0 gs) c).Nodup := by
  have hload := arrivals_fillGroups hl gs 0
  simp only [Nat.zero_add] at hload
  have hother : ∀ p, p ≠ c → (put empty ((a, c) :: fillGroups l 0 gs) p).card ≤ l := by
    intro p hp
    rw [put, empty, Finset.empty_union, arrivals_cons_of_ne _ a hp]
    exact (List.toFinset_card_le _).trans (hload p).1
  have hself : put empty ((a, c) :: fillGroups l 0 gs) c =
      insert a (arrivals (fillGroups l 0 gs) c).toFinset := by
    rw [put, empty, Finset.empty_union, arrivals_cons_self, List.toFinset_cons]
  have hiff : Within l (put empty ((a, c) :: fillGroups l 0 gs)) ↔
      (insert a (arrivals (fillGroups l 0 gs) c).toFinset).card ≤ l := by
    rw [← hself]
    refine ⟨fun h => h c, fun h p => ?_⟩
    by_cases hp : p = c
    · rw [hp]
      exact h
    · exact hother p hp
  obtain ⟨hle, hroom, -⟩ := hload c
  rw [hiff, ← hroom]
  generalize arrivals (fillGroups l 0 gs) c = as at hle
  have hcard := List.toFinset_card_le as
  by_cases ha : a ∈ as
  · rw [Finset.insert_eq_of_mem (List.mem_toFinset.mpr ha)]
    exact iff_of_true (hcard.trans hle) (.inr (.inl ha))
  · rw [Finset.card_insert_of_notMem fun h => ha (List.mem_toFinset.mp h)]
    by_cases hnodup : as.Nodup
    · rw [List.toFinset_card_of_nodup hnodup]
      exact ⟨.inl, fun h => h.elim id fun h => h.elim (absurd · ha) (absurd hnodup ·)⟩
    · have hlt : as.toFinset.card < as.length :=
        Nat.lt_of_le_of_ne hcard fun heq => hnodup
          (Multiset.coe_nodup.mp (Multiset.toFinset_card_eq_card_iff_nodup.mp heq))
      exact iff_of_true (hlt.trans_le hle) (.inr (.inr hnodup))

/-- of the pages up to `n` at most one is left empty, which the item may fill -/
theorem fills_cons_iff (hl : 0 < l) (gs : List (List α)) (a : α) (hc : c < n)
    (hle : pagesOf l (gs.map List.length) ≤ n) (hge : n ≤ pagesOf l (gs.map List.length) + 1) :
    Fills (put empty ((a, c) :: fillGroups l 0 gs)) n ↔
      pagesOf l (gs.map List.length) = n ∨ c + 1 = n := by
  have hload := arrivals_fillGroups hl gs 0
  simp only [Nat.zero_add] at hload
  have hmem : ∀ p, p ∈ insert c (Finset.range (pagesOf l (gs.map List.length))) ↔
      put empty ((a, c) :: fillGroups l 0 gs) p ≠ ∅ := by
    intro p
    rw [put_empty_ne, Finset.mem_insert, Finset.mem_range, (hload p).2.2]
    by_cases hp : p = c
    · subst hp
      rw [arrivals_cons_self]
      exact iff_of_true (.inl rfl) (List.cons_ne_nil _ _)
    · rw [arrivals_cons_of_ne _ a hp]
      exact or_iff_right hp
  have hcard : Fills (put empty ((a, c) :: fillGroups l 0 gs)) n ↔
      (insert c (Finset.range (pagesOf l (gs.map List.length)))).card = n := by
    constructor
    · rintro ⟨F, hF, rfl⟩
      congr 1
      ext p
      rw [hmem, hF]
    · exact fun h => ⟨_, hmem, h⟩
  rw [hcard]
  by_cases hin : c ∈ Finset.range (pagesOf l (gs.map List.length))
  · rw [Finset.insert_eq_of_mem hin, Finset.card_range]
    have hlt := Finset.mem_range.mp hin
    exact ⟨.inl, fun h => h.elim id fun h => by omega⟩
  · rw [Finset.card_insert_of_notMem hin, Finset.card_range]
    have hnot : ¬ c < pagesOf l (gs.map List.length) := fun h => hin (Finset.mem_range.mpr h)
    omega

/-! ## What becomes of shifted groups -/

/-- the last size is one less -/
def lessOne : List ℕ → List ℕ
  | [] => []
  | [n] => [n - 1]
  | n :: n' :: ns => n :: lessOne (n' :: ns)

theorem map_length_shifted (gs : List (List α)) (h : ∀ g ∈ gs, g ≠ []) :
    (shifted gs).map List.length = lessOne (gs.map List.length) := by
  induction gs with
  | nil => rfl
  | cons g gs ih =>
    have ih := ih fun g' hg' => h g' (List.mem_cons_of_mem _ hg')
    cases gs with
    | nil =>
      show [g.tail.length] = [g.length - 1]
      rw [List.length_tail]
    | cons g' gs =>
      have hg := List.length_pos_of_ne_nil (h g List.mem_cons_self)
      have hg' := List.length_pos_of_ne_nil (h g' (List.mem_cons_of_mem _ List.mem_cons_self))
      show (g.tail ++ g'.take 1).length :: (shifted (g' :: gs)).map List.length = g.length :: _
      rw [ih, List.length_append, List.length_tail, List.length_take, Nat.min_eq_left hg',
        Nat.sub_add_cancel hg]
      rfl

theorem map_fst_fillShifted (l : ℕ) (gs : List (List α)) :
    ∀ c base, (fillShifted l c base gs).map Prod.fst = gs.flatten := by
  induction gs with
  | nil => exact fun _ _ => rfl
  | cons g gs ih =>
    intro c base
    cases g with
    | nil =>
      rw [fillShifted, ih]
      rfl
    | cons a rest =>
      rw [fillShifted, List.map_append, List.map_cons, map_fst_fill, ih]
      rfl

/-- the sizes of the groups that have items -/
def sizes (gs : List (List α)) : List ℕ := (gs.filter (· ≠ [])).map List.length

theorem sizes_eq (gs : List (List α)) : sizes gs = (gs.map List.length).filter (0 < ·) := by
  rw [sizes, List.filter_map]
  congr 1
  refine List.filter_congr fun g _ => ?_
  rw [Function.comp_apply, decide_eq_decide, List.length_pos_iff]

theorem pagesOf_sizes (l : ℕ) (gs : List (List α)) :
    pagesOf l (sizes gs) = pagesOf l (gs.map List.length) := by
  induction gs with
  | nil => rfl
  | cons g gs ih =>
    rw [List.map_cons, pagesOf_cons, ← ih]
    cases g with
    | nil =>
      rw [sizes, List.filter_cons_of_neg (by simp), List.length_nil, zero_ceilDiv, Nat.zero_add]
      rfl
    | cons a rest =>
      rw [sizes, List.filter_cons_of_pos (by simp), List.map_cons, pagesOf_cons]
      rfl

theorem once_iff : (∀ a ∈ es.map Prod.fst, ∃! p, a ∈ put empty es p) ↔ OnePage es := by
  have hmem : ∀ a p, a ∈ put empty es p ↔ (a, p) ∈ es := by
    intro a p
    rw [mem_put]
    exact or_iff_right (Finset.notMem_empty a)
  constructor
  · rintro h ⟨a, p⟩ he ⟨a', p'⟩ he' heq
    obtain rfl : a = a' := heq
    obtain ⟨q, -, huniq⟩ := h a (List.mem_map.mpr ⟨(a, p), he, rfl⟩)
    exact (huniq p ((hmem a p).mpr he)).trans (huniq p' ((hmem a p').mpr he')).symm
  · intro h a ha
    obtain ⟨⟨a, p⟩, he, rfl⟩ := List.mem_map.mp ha
    exact ⟨p, (hmem a p).mpr he, fun p' he' => h _ ((hmem a p').mp he') _ he rfl⟩

/-- the page `c` has room for one item more, or what comes on it is not all different -/
theorem within_shifted_iff (hl : 0 < l) (gs : List (List α)) (c : ℕ) :
    Within l (put empty (fillShifted l c 0 gs)) ↔
      HasRoom l (lessOne (sizes gs)) c ∨ ¬ (arrivals (fillShifted l c 0 gs) c).Nodup := by
  rw [fillShifted_filter, sizes]
  have hne : ∀ g ∈ gs.filter (· ≠ []), g ≠ [] := fun g hg => of_decide_eq_true (List.mem_filter.mp hg).2
  generalize gs.filter (· ≠ []) = gs' at hne
  cases gs' with
  | nil => exact iff_of_true (fun _ => Nat.zero_le _) (.inl trivial)
  | cons g gs' =>
    cases g with
    | nil => exact absurd rfl (hne [] List.mem_cons_self)
    | cons a rest =>
      have hrest := fun g hg => hne g (List.mem_cons_of_mem _ hg)
      rw [fillShifted_eq hl gs' c 0 a rest hrest, within_cons_iff hl, map_length_shifted _ hne,
        arrivals_cons_self, List.nodup_cons, not_and_or, not_not]

/-- of the pages none is left empty, or the first item fills the last one -/
theorem fills_shifted_iff (hl : 0 < l) (gs : List (List α))
    (hc : sizes gs ≠ [] → c < pagesOf l (sizes gs)) :
    Fills (put empty (fillShifted l c 0 gs)) (pagesOf l (sizes gs)) ↔
      sizes gs = [] ∨ pagesOf l (lessOne (sizes gs)) = pagesOf l (sizes gs) ∨
        c + 1 = pagesOf l (sizes gs) := by
  rw [fillShifted_filter]
  revert hc
  rw [sizes]
  have hne : ∀ g ∈ gs.filter (· ≠ []), g ≠ [] := fun g hg => of_decide_eq_true (List.mem_filter.mp hg).2
  generalize gs.filter (· ≠ []) = gs' at hne
  intro hc
  cases gs' with
  | nil => exact iff_of_true ⟨∅, fun p => iff_of_false (Finset.notMem_empty p) (fun h => h rfl), rfl⟩ (.inl rfl)
  | cons g gs' =>
    cases g with
    | nil => exact absurd rfl (hne [] List.mem_cons_self)
    | cons a rest =>
      have hrest := fun g hg => hne g (List.mem_cons_of_mem _ hg)
      obtain ⟨hle, hge⟩ := pagesOf_shifted hl gs' a rest hrest
      rw [fillShifted_eq hl gs' c 0 a rest hrest,
        fills_cons_iff hl _ a (hc (List.cons_ne_nil _ _)) hle hge, map_length_shifted _ hne]
      exact (or_iff_right (List.cons_ne_nil _ _)).symm

theorem onePage_of_nodup (h : (es.map Prod.fst).Nodup) : OnePage es := by
  intro e he e' he' heq
  have hinj := List.inj_on_of_nodup_map h he he' heq
  rw [hinj]

theorem arrivals_nodup (h : (es.map Prod.fst).Nodup) (p : ℕ) : (arrivals es p).Nodup :=
  h.sublist (List.filter_sublist.map _)

end Pages
