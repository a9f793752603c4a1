import Netsdb.Lib.Probe

/-!
# Tables that grow before they are full

A table counts the slots that are put to use, and never counts back.

* `occupied`       how many slots are used;
* `probe_ends`     a search ends, if a slot is free;
* `Load`           the counters of a table, and `Load.Ok`, what they tell;
* `Load.Filling`   a larger table that takes over entries one by one.
-/

/-- the used ones of `n` slots -/
def occupied (used : ℕ → Prop) [DecidablePred used] (n : ℕ) : ℕ := (List.range n).countP (used ·)

section
variable {used used' : ℕ → Prop} [DecidablePred used] [DecidablePred used'] {n i j : ℕ}

theorem occupied_succ (used : ℕ → Prop) [DecidablePred used] (n : ℕ) :
    occupied used (n + 1) = occupied used n + if used n then 1 else 0 := by
  rw [occupied, List.range_succ, List.countP_append, List.countP_singleton]
  simp only [decide_eq_true_eq, occupied]

theorem occupied_le (h : ∀ x < n, used' x → used x) : occupied used' n ≤ occupied used n :=
  List.countP_mono_left fun x hx hu =>
    decide_eq_true (h x (List.mem_range.mp hx) (of_decide_eq_true hu))

theorem occupied_of_unused (h : ∀ x < n, ¬ used x) : occupied used n = 0 :=
  List.countP_eq_zero.mpr fun x hx hu => h x (List.mem_range.mp hx) (of_decide_eq_true hu)

/-- one slot put to use -/
theorem occupied_enter (h : ∀ x, x ≠ j → used' x → used x) : occupied used' n ≤ occupied used n + 1 := by
  induction n with
  | zero => exact Nat.zero_le _
  | succ n ih =>
    rw [occupied_succ, occupied_succ]
    by_cases e : n = j
    · have hle : occupied used' n ≤ occupied used n :=
        occupied_le fun x hx => h x (by omega)
      split <;> split <;> omega
    · by_cases hu : used' n
      · rw [if_pos hu, if_pos (h n e hu)]
        omega
      · rw [if_neg hu]
        omega

theorem exists_unused (h : occupied used n < n) : ∃ x < n, ¬ used x := by
  by_contra hall
  have hall : ∀ x < n, used x := fun x hx => by_contra fun hu => hall ⟨x, hx, hu⟩
  have hlen : (List.range n).countP (used ·) = (List.range n).length :=
    List.countP_eq_length.mpr fun x hx => decide_eq_true (hall x (List.mem_range.mp hx))
  rw [List.length_range] at hlen
  exact absurd hlen (Nat.ne_of_lt h)

/-- **A search ends in a table with a free slot.** -/
theorem probe_ends {stop : ℕ → Bool} (hi : i < n) (hfree : ∃ x < n, stop x = true) :
    ∃ x < n, probe stop n n i = some x ∧ stop x = true := by
  obtain ⟨free, hlt, hfree⟩ := hfree
  have hused : ∀ x, x < n → stop x = true → ¬ stop x = false :=
    fun _ _ h hno => Bool.false_ne_true (hno.symm.trans h)
  obtain ⟨x, hx, hxn, hstop, -⟩ := probe_miss hi hlt hfree hused fun _ h => h
  exact ⟨x, hxn, hx, Bool.not_eq_false _ ▸ hstop⟩

end

/-- the slots of a table, those that are counted, how many may be, and those that are used -/
structure Load where
  slots : ℕ
  counted : ℕ
  limit : ℕ
  used : ℕ

namespace Load

/-- a table of `n` slots may have `fill n` used ones -/
structure FillFactor (fill : ℕ → ℕ) : Prop where
  lt : ∀ {n}, 2 ≤ n → fill n < n
  lt_double : ∀ {n}, 2 ≤ n → fill n < fill (n * 2)

section
variable {fill : ℕ → ℕ} {c c' new new' : Load} {left left' : ℕ}

structure Ok (fill : ℕ → ℕ) (c : Load) : Prop where
  two_le : 2 ≤ c.slots
  limit : c.limit = fill c.slots
  used : c.used ≤ c.counted
  counted : c.counted ≤ c.limit

theorem Ok.room (hf : FillFactor fill) (h : Ok fill c) : c.used < c.slots := by
  have hlt := hf.lt h.two_le
  have h1 := h.used
  have h2 := h.counted
  rw [h.limit] at h2
  omega

/-- the same counters, and no other slot used -/
structure Lighter (c c' : Load) : Prop where
  slots : c'.slots = c.slots
  counted : c'.counted = c.counted
  limit : c'.limit = c.limit
  used : c'.used ≤ c.used

theorem Lighter.refl (c : Load) : Lighter c c := ⟨rfl, rfl, rfl, Nat.le_refl _⟩

theorem Lighter.trans {c'' : Load} (h : Lighter c c') (h' : Lighter c' c'') : Lighter c c'' :=
  ⟨h'.slots.trans h.slots, h'.counted.trans h.counted, h'.limit.trans h.limit,
    Nat.le_trans h'.used h.used⟩

/-- one slot put to use, and counted -/
structure Entered (c c' : Load) : Prop where
  slots : c'.slots = c.slots
  counted : c'.counted = c.counted + 1
  limit : c'.limit = c.limit
  used : c'.used ≤ c.used + 1

theorem Ok.lighter (h : Ok fill c) (hc : Lighter c c') : Ok fill c' := by
  have h1 := h.used
  have h2 := h.counted
  have h3 := hc.used
  refine ⟨hc.slots ▸ h.two_le, ?_, ?_, ?_⟩
  · rw [hc.limit, hc.slots, h.limit]
  · rw [hc.counted]
    omega
  · rw [hc.counted, hc.limit]
    exact h2

theorem Ok.enter (h : Ok fill c) (hlt : c.counted < c.limit) (hc : Entered c c') : Ok fill c' := by
  have h1 := h.used
  have h3 := hc.used
  refine ⟨hc.slots ▸ h.two_le, ?_, ?_, ?_⟩
  · rw [hc.limit, hc.slots, h.limit]
  · rw [hc.counted]
    omega
  · rw [hc.counted, hc.limit]
    exact hlt

/-- a table without entries -/
theorem ok_new (h2 : 2 ≤ c.slots) (hlimit : c.limit = fill c.slots) (hcounted : c.counted = 0)
    (hused : c.used = 0) : Ok fill c := ⟨h2, hlimit, by omega, by omega⟩

/-- `new`, of twice the size, is to get `left` more entries of a table -/
structure Filling (fill : ℕ → ℕ) (c new : Load) (left : ℕ) : Prop where
  slots : new.slots = c.slots * 2
  limit : new.limit = fill new.slots
  used : new.used ≤ new.counted
  left : new.counted + left ≤ c.counted

theorem Filling.lt_limit (hf : FillFactor fill) (hc : Ok fill c) (h : Filling fill c new left) :
    new.counted < new.limit := by
  have h1 := h.left
  have h2 := hc.counted
  have h3 := hf.lt_double hc.two_le
  rw [h.limit, h.slots]
  rw [hc.limit] at h2
  omega

/-- at any moment there is room for one more -/
theorem Filling.ok (hf : FillFactor fill) (hc : Ok fill c) (h : Filling fill c new left) : Ok fill new := by
  have h2 := hc.two_le
  have hslots := h.slots
  exact ⟨by omega, h.limit, h.used, Nat.le_of_lt (h.lt_limit hf hc)⟩

theorem Filling.lighter (h : Filling fill c new left) (hn : Lighter new new') (hle : left' ≤ left) :
    Filling fill c new' left' := by
  have h1 := h.used
  have h2 := h.left
  have h3 := hn.used
  refine ⟨hn.slots.trans h.slots, ?_, ?_, ?_⟩
  · rw [hn.limit, hn.slots, h.limit]
  · rw [hn.counted]
    omega
  · rw [hn.counted]
    omega

theorem Filling.enter (h : Filling fill c new left) (hn : Entered new new') (hle : left' + 1 ≤ left) :
    Filling fill c new' left' := by
  have h1 := h.used
  have h2 := h.left
  have h3 := hn.used
  refine ⟨hn.slots.trans h.slots, ?_, ?_, ?_⟩
  · rw [hn.limit, hn.slots, h.limit]
  · rw [hn.counted]
    omega
  · rw [hn.counted]
    omega

end
end Load
