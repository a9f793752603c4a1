import Mathlib.Algebra.Order.Group.Multiset
import Mathlib.Order.Lattice

/-!
# The `k` best elements of a multiset

`Best key k B M`: `B` is `k` elements of `M` (all, if there are not so many), and no element that
is left out has a larger key than one of `B`.

* `add`, `reject`, `replace`   one element more;
* `merge`                      in place of a multiset, its own `k` best will do.
-/

namespace TopK
variable {P S : Type*} [LinearOrder S] {key : P → S} {k : Nat} {B B' M M₁ M₂ B₂ : Multiset P}
  {p r : P}

structure Best (key : P → S) (k : Nat) (B M : Multiset P) : Prop where
  card : B.card = min k M.card
  left : ∃ R, M = B + R ∧ ∀ b ∈ B, ∀ r ∈ R, key r ≤ key b

theorem Best.zero : Best key k 0 0 := by
  refine ⟨?_, 0, ?_, fun b hb => ?_⟩
  · simp
  · rfl
  · cases Multiset.notMem_zero b hb

/-- there is still room -/
theorem Best.add (h : Best key k B M) (hlt : B.card < k) (p : P) :
    Best key k (p ::ₘ B) (p ::ₘ M) := by
  obtain ⟨R, hM, -⟩ := h.left
  have hcard := h.card
  have hsum : M.card = B.card + R.card := by rw [hM, Multiset.card_add]
  have hR : R = 0 := Multiset.card_eq_zero.mp (by omega)
  subst hR
  refine ⟨?_, 0, ?_, fun b _ r hr => ?_⟩
  · rw [Multiset.card_cons, Multiset.card_cons]
    omega
  · rw [hM, add_zero, add_zero]
  · cases Multiset.notMem_zero r hr

theorem Best.reject (h : Best key k B M) (hk : k ≤ B.card) (hp : ∀ b ∈ B, key p ≤ key b) :
    Best key k B (p ::ₘ M) := by
  obtain ⟨R, hM, hR⟩ := h.left
  have hcard := h.card
  refine ⟨?_, p ::ₘ R, ?_, fun b hb r hr => ?_⟩
  · rw [Multiset.card_cons]
    omega
  · rw [hM, Multiset.add_cons]
  · obtain rfl | hr := Multiset.mem_cons.mp hr
    · exact hp b hb
    · exact hR b hb r hr

/-- one of the least goes -/
theorem Best.replace (h : Best key k B M) (hk : k ≤ B.card) (he : p ::ₘ B = r ::ₘ B')
    (hr : ∀ b ∈ B', key r ≤ key b) : Best key k B' (p ::ₘ M) := by
  obtain ⟨R, hM, hR⟩ := h.left
  have hcard := h.card
  have hsame := congrArg Multiset.card he
  rw [Multiset.card_cons, Multiset.card_cons] at hsame
  refine ⟨?_, r ::ₘ R, ?_, fun b hb x hx => ?_⟩
  · rw [Multiset.card_cons]
    omega
  · rw [hM, ← Multiset.cons_add, he, Multiset.cons_add, Multiset.add_cons]
  · obtain rfl | hx := Multiset.mem_cons.mp hx
    · exact hr b hb
    · have hmem : r ∈ p ::ₘ B := by
        rw [he]
        exact Multiset.mem_cons_self r B'
      obtain rfl | hmem := Multiset.mem_cons.mp hmem
      · -- the new element is the one that goes
        rw [(Multiset.cons_inj_right r).mp he] at hR
        exact hR b hb x hx
      · exact (hR r hmem x hx).trans (hr b hb)

/-- **Merging.** -/
theorem Best.merge (h : Best key k B (M₁ + B₂)) (h₂ : Best key k B₂ M₂) :
    Best key k B (M₁ + M₂) := by
  obtain ⟨R₁, hM₁, hR₁⟩ := h.left
  obtain ⟨R₂, hM₂, hR₂⟩ := h₂.left
  have hcard := h.card
  have hcard₂ := h₂.card
  have hsum : M₂.card = B₂.card + R₂.card := by rw [hM₂, Multiset.card_add]
  rw [Multiset.card_add] at hcard
  refine ⟨?_, R₁ + R₂, ?_, fun b hb r hr => ?_⟩
  · rw [Multiset.card_add]
    omega
  · rw [hM₂, ← add_assoc, hM₁, add_assoc]
  · obtain hr | hr := Multiset.mem_add.mp hr
    · exact hR₁ b hb r hr
    · by_contra hlt
      have hlt : key b < key r := not_le.mp hlt
      -- then all of `B₂` is better than `b`, so none of it was left out, and it is all of `B`
      have hbetter : ∀ x ∈ B₂, key r ≤ key x := fun x hx => hR₂ x hx r hr
      have hworse : ∀ x ∈ R₁, ¬ key r ≤ key x := by
        intro x hx hle
        exact absurd (hle.trans (hR₁ b hb x hx)) (not_le.mpr hlt)
      have hsub : B₂ ≤ B := by
        calc B₂ = B₂.filter fun x => key r ≤ key x := (Multiset.filter_eq_self.mpr hbetter).symm
          _ ≤ (M₁ + B₂).filter fun x => key r ≤ key x :=
            Multiset.filter_le_filter _ (Multiset.le_add_left _ _)
          _ = (B.filter fun x => key r ≤ key x) + R₁.filter fun x => key r ≤ key x := by
            rw [hM₁, Multiset.filter_add]
          _ = B.filter fun x => key r ≤ key x := by
            rw [Multiset.filter_eq_nil.mpr hworse, add_zero]
          _ ≤ B := Multiset.filter_le _ _
      have hpos : 0 < R₂.card := Multiset.card_pos_iff_exists_mem.mpr ⟨r, hr⟩
      have heq : B₂ = B := Multiset.eq_of_le_of_card_le hsub (by omega)
      rw [← heq] at hb
      exact absurd (hR₂ b hb r hr) (not_le.mpr hlt)

end TopK
