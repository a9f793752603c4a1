import Mathlib.Data.List.Perm.Basic
import Mathlib.Data.Nat.Find
import Mathlib.Logic.Function.Basic

/-!
# Linear probing

A table of `n` slots, searched from a start slot upwards, with slot `0` behind slot `n - 1`.

* `probe`          the search: the first slot that `stop` accepts, in `n` steps;
* `Chained`        every slot from the start slot up to `j` is used;
* `probe_hit`      what is chained to its start slot is found;
* `probe_miss`     what is not there makes the search end at a free slot, if there is one;
* `slotList`       the contents of the slots, in order;
* `scan_eq`        walking from used slot to used slot gives just these.
-/

/-- the slot behind `i` -/
def nextSlot (n i : Nat) : Nat := if i = n - 1 then 0 else i + 1

/-- `k` slots from `i` on -/
def probe (stop : Nat → Bool) (n : Nat) : Nat → Nat → Option Nat
  | 0, _ => none
  | k + 1, i => if stop i then some i else probe stop n k (nextSlot n i)

/-- the slots from `i` up to `j`, without `j`, are used -/
def Chained (used : Nat → Prop) (n i j : Nat) : Prop :=
  ∃ d < n, j = (i + d) % n ∧ ∀ e < d, used ((i + e) % n)

section
variable {stop : Nat → Bool} {used used' : Nat → Prop} {n i j k d : Nat}

theorem nextSlot_eq (hi : i < n) : nextSlot n i = (i + 1) % n := by
  unfold nextSlot
  by_cases e : i = n - 1
  · rw [if_pos e, show i + 1 = n by omega, Nat.mod_self]
  · rw [if_neg e, Nat.mod_eq_of_lt (by omega)]

theorem add_mod_next (i e n : Nat) : ((i + 1) % n + e) % n = (i + (e + 1)) % n := by
  rw [Nat.mod_add_mod]
  congr 1
  omega

theorem nextSlot_lt (hi : i < n) : nextSlot n i < n := by
  rw [nextSlot_eq hi]
  exact Nat.mod_lt _ (by omega)

/-- only the slots of the table are looked at -/
theorem probe_congr {stop' : Nat → Bool} (h : ∀ x < n, stop x = stop' x) (k : Nat) :
    ∀ {i : Nat}, i < n → probe stop n k i = probe stop' n k i := by
  induction k with
  | zero => exact fun _ => rfl
  | succ k ih =>
    intro i hi
    rw [probe, probe, h i hi, ih (nextSlot_lt hi)]

/-- the search goes past slots that do not stop it -/
theorem probe_skip (d : Nat) : ∀ {i k : Nat}, i < n → (∀ e < d, stop ((i + e) % n) = false) →
    d ≤ k → probe stop n k i = probe stop n (k - d) ((i + d) % n) := by
  induction d with
  | zero =>
    intro i k hi _ _
    rw [Nat.sub_zero, Nat.add_zero, Nat.mod_eq_of_lt hi]
  | succ d ih =>
    intro i k hi hs hk
    obtain ⟨k, rfl⟩ : ∃ m, k = m + 1 := ⟨k - 1, by omega⟩
    have h0 := hs 0 (Nat.succ_pos d)
    rw [Nat.add_zero, Nat.mod_eq_of_lt hi] at h0
    have hi' : (i + 1) % n < n := Nat.mod_lt _ (by omega)
    rw [probe, h0, if_neg (by simp), nextSlot_eq hi,
      ih hi' (fun e he => by rw [add_mod_next]; exact hs (e + 1) (by omega)) (by omega),
      add_mod_next]
    congr 1
    omega

theorem probe_stop (hi : i < n) (hd : d < k) (hs : ∀ e < d, stop ((i + e) % n) = false)
    (h : stop ((i + d) % n) = true) : probe stop n k i = some ((i + d) % n) := by
  rw [probe_skip d hi hs (Nat.le_of_lt hd)]
  obtain ⟨m, hm⟩ : ∃ m, k - d = m + 1 := ⟨k - d - 1, by omega⟩
  rw [hm, probe, h, if_pos rfl]

/-- where a search ends -/
theorem probe_some (k : Nat) : ∀ {i : Nat}, i < n → probe stop n k i = some j →
    stop j = true ∧ ∃ d < k, j = (i + d) % n ∧ ∀ e < d, stop ((i + e) % n) = false := by
  induction k with
  | zero =>
    intro i _ h
    cases h
  | succ k ih =>
    intro i hi h
    rw [probe] at h
    by_cases hs : stop i = true
    · rw [if_pos hs] at h
      cases h
      exact ⟨hs, 0, Nat.succ_pos k, by rw [Nat.add_zero, Nat.mod_eq_of_lt hi],
        fun e he => absurd he (Nat.not_lt_zero e)⟩
    · rw [if_neg hs, nextSlot_eq hi] at h
      obtain ⟨hj, d, hd, he, hno⟩ := ih (Nat.mod_lt _ (by omega)) h
      refine ⟨hj, d + 1, Nat.succ_lt_succ hd, by rw [he, add_mod_next], fun e hlt => ?_⟩
      cases e with
      | zero =>
        rw [Nat.add_zero, Nat.mod_eq_of_lt hi]
        simpa using hs
      | succ e =>
        rw [← add_mod_next]
        exact hno e (by omega)

/-- every slot is on the way -/
theorem exists_offset (hi : i < n) (hj : j < n) : ∃ d < n, j = (i + d) % n := by
  by_cases h : i ≤ j
  · exact ⟨j - i, by omega, by rw [show i + (j - i) = j by omega, Nat.mod_eq_of_lt hj]⟩
  · refine ⟨n - i + j, by omega, ?_⟩
    rw [show i + (n - i + j) = j + n by omega, Nat.add_mod_right, Nat.mod_eq_of_lt hj]

theorem Chained.mono (h : Chained used n i j) (hu : ∀ x, used x → used' x) :
    Chained used' n i j := by
  obtain ⟨d, hd, he, hall⟩ := h
  exact ⟨d, hd, he, fun e hlt => hu _ (hall e hlt)⟩

/-- **What is in the table is found.** -/
theorem probe_hit (here : Nat → Bool) (hi : i < n) (hc : Chained used n i j)
    (hstop : ∀ x, x < n → used x → stop x = here x) (hj : stop j = true)
    (huniq : ∀ x, x < n → here x = true → x = j) : probe stop n n i = some j := by
  obtain ⟨d, hd, rfl, hall⟩ := hc
  refine probe_stop hi hd (fun e he => ?_) hj
  have hlt : (i + e) % n < n := Nat.mod_lt _ (by omega)
  rw [hstop _ hlt (hall e he)]
  cases hh : here ((i + e) % n) with
  | false => rfl
  | true =>
    -- two offsets below `n` that give the same slot are equal
    have hmod := huniq _ hlt hh
    have h1 := Nat.div_add_mod (i + e) n
    have h2 := Nat.div_add_mod (i + d) n
    have hquot : (i + e) / n ≤ (i + d) / n := Nat.div_le_div_right (by omega)
    rw [hmod] at h1
    rcases Nat.lt_or_eq_of_le hquot with hl | hl
    · have hmul : n * ((i + e) / n) + n ≤ n * ((i + d) / n) := by
        have := Nat.mul_le_mul_left n hl
        rwa [Nat.mul_succ] at this
      omega
    · rw [hl] at h1
      omega

/-- **What is not in the table ends the search at a free slot.** -/
theorem probe_miss {free : Nat} (hi : i < n) (hf : free < n) (hfree : stop free = true)
    (hstop : ∀ x, x < n → stop x = true → ¬ used x) (hused : ∀ x, stop x = false → used x) :
    ∃ j, probe stop n n i = some j ∧ j < n ∧ ¬ used j ∧ Chained used n i j := by
  obtain ⟨j, hj⟩ : ∃ j, probe stop n n i = some j := by
    cases h : probe stop n n i with
    | some j => exact ⟨j, rfl⟩
    | none =>
      obtain ⟨d, hd, rfl⟩ := exists_offset hi hf
      -- the first offset at which the search stops
      have hex : ∃ d, stop ((i + d) % n) = true := ⟨d, hfree⟩
      have hfirst := Nat.find_spec hex
      have hmin : ∀ e < Nat.find hex, stop ((i + e) % n) = false := fun e he => by
        simpa using Nat.find_min hex he
      have hlt : Nat.find hex < n := Nat.lt_of_le_of_lt (Nat.find_min' hex hfree) hd
      rw [probe_stop hi hlt hmin hfirst] at h
      cases h
  obtain ⟨hs, d, hd, rfl, hno⟩ := probe_some n hi hj
  have hlt : (i + d) % n < n := Nat.mod_lt _ (by omega)
  exact ⟨_, hj, hlt, hstop _ hlt hs, d, hd, rfl, fun e he => hused _ (hno e he)⟩

end

/-! ## contents -/

section
variable {α : Type*} {f : Nat → Option α} {n j : Nat} {x : α}

/-- what the first `n` slots hold -/
def slotList (n : Nat) (f : Nat → Option α) : List α := (List.range n).filterMap f

theorem mem_slotList : x ∈ slotList n f ↔ ∃ i < n, f i = some x := by
  simp [slotList]

theorem slotList_succ (n : Nat) (f : Nat → Option α) :
    slotList (n + 1) f = slotList n f ++ (f n).toList := by
  simp only [slotList, List.range_succ, List.filterMap_append, List.filterMap_cons,
    List.filterMap_nil]
  cases f n <;> rfl

theorem slotList_congr {g : Nat → Option α} (h : ∀ i < n, f i = g i) :
    slotList n f = slotList n g :=
  List.filterMap_congr fun i hi => h i (List.mem_range.mp hi)

/-- one slot written -/
theorem slotList_update (hj : j < n) (y : Option α) :
    (slotList n (Function.update f j y) ++ (f j).toList).Perm (slotList n f ++ y.toList) := by
  induction n with
  | zero => omega
  | succ n ih =>
    rw [slotList_succ, slotList_succ]
    by_cases e : j = n
    · subst e
      have hsame : slotList j (Function.update f j y) = slotList j f :=
        slotList_congr fun i hi => Function.update_of_ne (Nat.ne_of_lt hi) _ _
      rw [hsame, Function.update_self, List.append_assoc, List.append_assoc]
      exact List.perm_append_comm.append_left _
    · rw [Function.update_of_ne (fun h => e h.symm), List.append_assoc, List.append_assoc]
      have hcomm : ∀ a b : List α, (a ++ b).Perm (b ++ a) := fun _ _ => List.perm_append_comm
      exact (((hcomm _ _).append_left _).trans (by rw [← List.append_assoc])).trans
        (((ih (by omega)).append_right _).trans
          (by rw [List.append_assoc]; exact (hcomm _ _).append_left _))

theorem slotList_insert (hj : j < n) (hf : f j = none) (y : α) :
    (slotList n (Function.update f j (some y))).Perm (y :: slotList n f) := by
  have h := slotList_update hj (some y) (f := f)
  rw [hf, Option.toList_none, List.append_nil] at h
  exact h.trans List.perm_append_comm

theorem slotList_length_le (n : Nat) (f : Nat → Option α) : (slotList n f).length ≤ n := by
  have h := List.length_filterMap_le f (List.range n)
  rwa [List.length_range] at h

theorem exists_free (h : (slotList n f).length < n) : ∃ i < n, f i = none := by
  induction n with
  | zero => omega
  | succ n ih =>
    rw [slotList_succ, List.length_append] at h
    cases hn : f n with
    | none => exact ⟨n, Nat.lt_succ_self n, hn⟩
    | some y =>
      rw [hn, Option.toList_some, List.length_singleton] at h
      obtain ⟨i, hi, hf⟩ := ih (by omega)
      exact ⟨i, by omega, hf⟩

/-! ## walking through the table -/

/-- `while (i != n && free i) i++`, at most `k` times -/
def skipFree (free : Nat → Bool) (n : Nat) : Nat → Nat → Nat
  | 0, i => i
  | k + 1, i => if i ≠ n ∧ free i = true then skipFree free n k (i + 1) else i

/-- the used slots from `i` on, with their contents -/
def slotsFrom (n : Nat) (f : Nat → Option α) (i : Nat) : List α :=
  (List.range' i (n - i)).filterMap f

theorem slotsFrom_zero (n : Nat) (f : Nat → Option α) : slotsFrom n f 0 = slotList n f := by
  rw [slotsFrom, slotList, Nat.sub_zero, List.range_eq_range']

theorem slotsFrom_step {i : Nat} (hi : i < n) (f : Nat → Option α) :
    slotsFrom n f i = (f i).toList ++ slotsFrom n f (i + 1) := by
  obtain ⟨k, hk⟩ : ∃ k, n - i = k + 1 := ⟨n - i - 1, by omega⟩
  have hk' : n - (i + 1) = k := by omega
  unfold slotsFrom
  rw [hk, hk', List.range'_succ, List.filterMap_cons]
  cases f i <;> rfl

/-- the slot where the walk stops is used, or there is none -/
theorem skipFree_spec {free : Nat → Bool} (hfree : ∀ i < n, free i = true ↔ f i = none) (k : Nat) :
    ∀ i, i + k = n → skipFree free n k i ≤ n ∧ i ≤ skipFree free n k i ∧
      slotsFrom n f i = slotsFrom n f (skipFree free n k i) ∧
      (skipFree free n k i ≠ n → f (skipFree free n k i) ≠ none) := by
  induction k with
  | zero => exact fun i hi => ⟨Nat.le_of_eq hi, Nat.le_refl i, rfl, fun hne => absurd hi hne⟩
  | succ k ih =>
    intro i hi
    have hlt : i < n := by omega
    rw [skipFree]
    split
    · next hc =>
      obtain ⟨h1, h2, h3, h4⟩ := ih (i + 1) (by omega)
      refine ⟨h1, by omega, ?_, h4⟩
      rw [slotsFrom_step hlt, (hfree i hlt).mp hc.2, Option.toList_none, List.nil_append, h3]
    · next hc =>
      refine ⟨Nat.le_of_lt hlt, Nat.le_refl i, rfl, fun hne hno => hc ⟨hne, (hfree i hlt).mpr hno⟩⟩

end
