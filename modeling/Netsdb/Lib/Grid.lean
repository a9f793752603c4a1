import Netsdb.Lib.Tally

/-!
# Lists of lists of a given shape

* `make`     all entries made by a partial function of the two indices;
* `setAt`    one entry replaced;
* `Shaped`   so many rows and columns, and what holds of the entry at two indices;
* `nest`     the sum over all entries.
-/

namespace Grid
variable {α M : Type*}

def make (rows cols : Nat) (f : Nat → Nat → Option α) : Option (List (List α)) :=
  (List.range rows).mapM fun i => (List.range cols).mapM fun j => f i j

def getAt (g : List (List α)) (i j : Nat) : Option α := g[i]?.bind fun v => v[j]?

def setAt (g : List (List α)) (i j : Nat) (x : α) : List (List α) :=
  match g[i]? with
  | some v => g.set i (v.set j x)
  | none => g

structure Shaped (rows cols : Nat) (P : Nat → Nat → α → Prop) (g : List (List α)) : Prop where
  rows : g.length = rows
  cols : ∀ v ∈ g, v.length = cols
  entry : ∀ i j x, getAt g i j = some x → P i j x

def nest [AddCommMonoid M] (f : α → M) (g : List (List α)) : M :=
  (g.map fun v => (v.map f).sum).sum

variable {rows cols i j : Nat} {P : Nat → Nat → α → Prop} {g : List (List α)} {x y : α}

theorem getAt_eq : getAt g i j = some x ↔ ∃ v, g[i]? = some v ∧ v[j]? = some x := by
  unfold getAt
  exact Option.bind_eq_some_iff

theorem Shaped.getAt (h : Shaped rows cols P g) (hi : i < rows) (hj : j < cols) :
    ∃ x, Grid.getAt g i j = some x ∧ P i j x := by
  have hlen : i < g.length := by rw [h.rows]; exact hi
  have hcol := h.cols _ (List.getElem_mem hlen)
  have hlen' : j < (g[i]).length := by rw [hcol]; exact hj
  have hget : Grid.getAt g i j = some g[i][j] :=
    getAt_eq.mpr ⟨_, List.getElem?_eq_getElem hlen, List.getElem?_eq_getElem hlen'⟩
  exact ⟨_, hget, h.entry i j _ hget⟩

theorem setAt_eq {v : List α} (h : g[i]? = some v) : setAt g i j x = g.set i (v.set j x) := by
  rw [setAt, h]

theorem getAt_setAt {i' j' : Nat} (h : getAt (setAt g i j x) i' j' = some y) :
    (i' = i ∧ j' = j ∧ y = x) ∨ getAt g i' j' = some y := by
  cases hv : g[i]? with
  | none =>
    rw [setAt, hv] at h
    exact Or.inr h
  | some v =>
    rw [setAt_eq hv] at h
    obtain ⟨w, hw, hy⟩ := getAt_eq.mp h
    rw [List.getElem?_set] at hw
    by_cases e : i = i'
    · subst e
      have hlt : i < g.length := (List.getElem?_eq_some_iff.mp hv).1
      rw [if_pos rfl, if_pos hlt, Option.some.injEq] at hw
      subst hw
      rw [List.getElem?_set] at hy
      by_cases e' : j = j'
      · subst e'
        rw [if_pos rfl] at hy
        by_cases hj : j < v.length
        · rw [if_pos hj, Option.some.injEq] at hy
          exact Or.inl ⟨rfl, rfl, hy.symm⟩
        · rw [if_neg hj] at hy
          cases hy
      · rw [if_neg e'] at hy
        exact Or.inr (getAt_eq.mpr ⟨v, hv, hy⟩)
    · rw [if_neg e] at hw
      exact Or.inr (getAt_eq.mpr ⟨w, hw, hy⟩)

theorem getAt_setAt_self (h : getAt g i j = some y) : getAt (setAt g i j x) i j = some x := by
  obtain ⟨v, hv, hy⟩ := getAt_eq.mp h
  rw [setAt_eq hv]
  refine getAt_eq.mpr ⟨v.set j x, List.getElem?_set_self (List.getElem?_eq_some_iff.mp hv).1, ?_⟩
  exact List.getElem?_set_self (List.getElem?_eq_some_iff.mp hy).1

theorem getAt_setAt_ne {p q : Nat × Nat} (h : p ≠ q) :
    getAt (setAt g p.1 p.2 x) q.1 q.2 = getAt g q.1 q.2 := by
  cases hv : g[p.1]? with
  | none => rw [setAt, hv]
  | some v =>
    rw [setAt_eq hv, getAt, getAt]
    by_cases hrow : p.1 = q.1
    · have hcol : p.2 ≠ q.2 := fun hcol => h (Prod.ext hrow hcol)
      rw [← hrow, hv, List.getElem?_set_self (List.getElem?_eq_some_iff.mp hv).1, Option.bind_some,
        Option.bind_some, List.getElem?_set_ne hcol]
    · rw [List.getElem?_set_ne hrow]

theorem Shaped.setAt (h : Shaped rows cols P g) (hx : P i j x) :
    Shaped rows cols P (Grid.setAt g i j x) := by
  refine ⟨?_, ?_, fun i' j' y hy => ?_⟩
  · unfold Grid.setAt
    split
    · rw [List.length_set]
      exact h.rows
    · exact h.rows
  · unfold Grid.setAt
    split
    · next v hv =>
      intro w hw
      rcases List.mem_or_eq_of_mem_set hw with hw | rfl
      · exact h.cols w hw
      · rw [List.length_set]
        exact h.cols v (List.mem_of_getElem? hv)
    · exact h.cols
  · rcases getAt_setAt hy with ⟨rfl, rfl, rfl⟩ | hy
    · exact hx
    · exact h.entry i' j' y hy

section
variable [AddCommMonoid M] {f : α → M} {d : M}

/-- one entry grows -/
theorem nest_setAt (hg : getAt g i j = some y) (hx : f x = f y + d) :
    nest f (setAt g i j x) = nest f g + d := by
  obtain ⟨v, hv, hy⟩ := getAt_eq.mp hg
  rw [setAt_eq hv]
  exact Tally.sum_map_set (f := fun v => (v.map f).sum) hv (Tally.sum_map_set hy hx)

theorem nest_zero (h : ∀ i j x, getAt g i j = some x → f x = 0) : nest f g = 0 := by
  refine List.sum_eq_zero fun a ha => ?_
  obtain ⟨v, hv, rfl⟩ := List.mem_map.mp ha
  obtain ⟨i, hi⟩ := List.mem_iff_getElem?.mp hv
  refine List.sum_eq_zero fun b hb => ?_
  obtain ⟨x, hx, rfl⟩ := List.mem_map.mp hb
  obtain ⟨j, hj⟩ := List.mem_iff_getElem?.mp hx
  exact h i j x (getAt_eq.mpr ⟨v, hi, hj⟩)

end

/-! ## making -/

/-- the results of a function that is defined on the whole list -/
theorem mapM_spec {β : Type*} {Q : β → α → Prop} {f : β → Option α} {l : List β}
    (h : ∀ b ∈ l, ∃ x, f b = some x ∧ Q b x) :
    ∃ r, l.mapM f = some r ∧ List.Forall₂ Q l r := by
  induction l with
  | nil => exact ⟨[], rfl, .nil⟩
  | cons b l ih =>
    obtain ⟨x, hx, hq⟩ := h b List.mem_cons_self
    obtain ⟨r, hr, hall⟩ := ih fun b hb => h b (List.mem_cons_of_mem _ hb)
    refine ⟨x :: r, ?_, .cons hq hall⟩
    rw [List.mapM_cons, hx, hr]
    rfl

theorem length_mapM {β : Type*} {f : β → Option α} {l : List β} {r : List α}
    (h : l.mapM f = some r) : r.length = l.length := by
  induction l generalizing r with
  | nil =>
    cases h
    rfl
  | cons b l ih =>
    rw [List.mapM_cons] at h
    obtain ⟨x, -, h⟩ := Option.bind_eq_some_iff.mp h
    obtain ⟨r', hr, h⟩ := Option.bind_eq_some_iff.mp h
    cases h
    exact congrArg Nat.succ (ih hr)

theorem getElem?_mapM {β : Type*} {f : β → Option α} {l : List β} {r : List α}
    (h : l.mapM f = some r) {n : Nat} {b : β} (hb : l[n]? = some b) :
    ∃ x, r[n]? = some x ∧ f b = some x := by
  induction l generalizing r n with
  | nil => cases hb
  | cons b' l ih =>
    rw [List.mapM_cons] at h
    obtain ⟨x, hx, h⟩ := Option.bind_eq_some_iff.mp h
    obtain ⟨r', hr, h⟩ := Option.bind_eq_some_iff.mp h
    cases h
    cases n with
    | zero =>
      cases hb
      exact ⟨x, rfl, hx⟩
    | succ n => exact ih hr hb

/-- what the results are the results of -/
theorem mem_mapM {β : Type*} {f : β → Option α} {l : List β} {r : List α} (h : l.mapM f = some r)
    {x : α} (hx : x ∈ r) : ∃ b ∈ l, f b = some x := by
  obtain ⟨n, hn⟩ := List.mem_iff_getElem?.mp hx
  have hlt : n < l.length := by
    by_contra hge
    obtain ⟨hr, -⟩ := List.getElem?_eq_some_iff.mp hn
    exact hge (length_mapM h ▸ hr)
  obtain ⟨x', hx', hf⟩ := getElem?_mapM h (List.getElem?_eq_getElem hlt)
  rw [hn] at hx'
  cases hx'
  exact ⟨_, List.getElem_mem hlt, hf⟩

theorem mapM_mem {β : Type*} {f : β → Option α} {l : List β} {r : List α} (h : l.mapM f = some r)
    {b : β} (hb : b ∈ l) : ∃ x ∈ r, f b = some x := by
  obtain ⟨n, hn⟩ := List.mem_iff_getElem?.mp hb
  obtain ⟨x, hx, hf⟩ := getElem?_mapM h hn
  exact ⟨x, List.mem_of_getElem? hx, hf⟩

theorem forall₂_left {β : Type*} {Q : β → α → Prop} {l : List β} {r : List α}
    (h : List.Forall₂ Q l r) : ∀ b ∈ l, ∃ x ∈ r, Q b x := by
  induction h with
  | nil => exact fun b hb => nomatch hb
  | cons hq _ ih =>
    intro b hb
    rcases List.mem_cons.mp hb with rfl | hb
    · exact ⟨_, List.mem_cons_self, hq⟩
    · obtain ⟨x, hx, hbx⟩ := ih b hb
      exact ⟨x, List.mem_cons_of_mem _ hx, hbx⟩

theorem forall₂_right {β : Type*} {Q : β → α → Prop} {l : List β} {r : List α}
    (h : List.Forall₂ Q l r) : ∀ x ∈ r, ∃ b ∈ l, Q b x :=
  forall₂_left h.flip

theorem range_forall₂ {Q : Nat → α → Prop} {n : Nat} {r : List α}
    (h : List.Forall₂ Q (List.range n) r) : r.length = n ∧ ∀ i x, r[i]? = some x → Q i x := by
  have hlen : r.length = n := by rw [← h.length_eq, List.length_range]
  refine ⟨hlen, fun i x hx => ?_⟩
  obtain ⟨hi, rfl⟩ := List.getElem?_eq_some_iff.mp hx
  have := h.get (by rw [List.length_range, ← hlen]; exact hi) hi
  simpa using this

theorem make_spec {f : Nat → Nat → Option α} (h : ∀ i < rows, ∀ j < cols, ∃ x, f i j = some x ∧ P i j x) :
    ∃ g, make rows cols f = some g ∧ Shaped rows cols P g := by
  have hrow : ∀ i ∈ List.range rows, ∃ v, (List.range cols).mapM (fun j => f i j) = some v ∧
      (v.length = cols ∧ ∀ j x, v[j]? = some x → P i j x) := by
    intro i hi
    obtain ⟨v, hv, hall⟩ := mapM_spec (Q := fun j x => P i j x) (f := fun j => f i j)
      (l := List.range cols) fun j hj => h i (List.mem_range.mp hi) j (List.mem_range.mp hj)
    exact ⟨v, hv, range_forall₂ hall⟩
  obtain ⟨g, hc, hall⟩ := mapM_spec hrow
  obtain ⟨hlen, hentry⟩ := range_forall₂ hall
  refine ⟨g, hc, hlen, fun v hv => ?_, fun i j x hx => ?_⟩
  · obtain ⟨i, hi⟩ := List.mem_iff_getElem?.mp hv
    exact (hentry i v hi).1
  · obtain ⟨v, hv, hx⟩ := getAt_eq.mp hx
    exact (hentry i v hv).2 j x hx

/-- where all entries are defined -/
theorem getAt_make {f : Nat → Nat → Option α} {g : List (List α)} (h : make rows cols f = some g)
    (hi : i < rows) (hj : j < cols) : ∃ x, getAt g i j = some x ∧ f i j = some x := by
  obtain ⟨v, hv, hrow⟩ := getElem?_mapM h (List.getElem?_range hi)
  obtain ⟨x, hx, hentry⟩ := getElem?_mapM hrow (List.getElem?_range hj)
  exact ⟨x, getAt_eq.mpr ⟨v, hv, hx⟩, hentry⟩

/-- all entries of a total function -/
def table (rows cols : Nat) (f : Nat → Nat → α) : List (List α) :=
  (List.range rows).map fun i => (List.range cols).map (f i)

theorem shaped_table (rows cols : Nat) (f : Nat → Nat → α) :
    Shaped rows cols (fun i j x => x = f i j) (table rows cols f) := by
  refine ⟨?_, fun v hv => ?_, fun i j x hx => ?_⟩
  · rw [table, List.length_map, List.length_range]
  · obtain ⟨i, -, rfl⟩ := List.mem_map.mp hv
    rw [List.length_map, List.length_range]
  · obtain ⟨v, hv, hx⟩ := getAt_eq.mp hx
    rw [table, List.getElem?_map, Option.map_eq_some_iff] at hv
    obtain ⟨i', hi', rfl⟩ := hv
    rw [List.getElem?_map, Option.map_eq_some_iff] at hx
    obtain ⟨j', hj', rfl⟩ := hx
    obtain ⟨hi, rfl⟩ := List.getElem?_eq_some_iff.mp hi'
    obtain ⟨hj, rfl⟩ := List.getElem?_eq_some_iff.mp hj'
    rw [List.getElem_range, List.getElem_range]

end Grid
