import Netsdb.LinearAlgebra.Program

/-!
# The extreme elements of a matrix (`LASillyMaxElementAggregate.h`, `LASillyMinElementAggregate.h`)

* `Best`                  an element that no other one is better than, or where the search starts;
* `elementValue_best`     the search in a block;
* `element_exact`         what is found in a matrix, the blocks compared in any order;
* `extremes_exact`        what the aggregates give for an expression of the language.
-/

set_option linter.unusedSectionVars false

namespace Netsdb
namespace LinearAlgebra
open Aggregation

variable {F : Type}

/-- neither is better, so that the first one found is kept -/
structure Compares (better : F → F → Bool) : Prop where
  asymm : ∀ x y, better x y = true → better y x = false
  trans : ∀ x y z, better x y = false → better y z = false → better x z = false

/-- the start, where no element is better, or an element that is better than it and the others -/
def Best (better : F → F → Bool) (start : F) (S : ElementValue F → Prop) (r : ElementValue F) : Prop :=
  (r = ⟨start, -1, -1⟩ ∨ S r ∧ better r.value start = true) ∧
    ∀ e, S e → better e.value r.value = false

section
variable {better : F → F → Bool} {start : F} {S T : ElementValue F → Prop} {r r' : ElementValue F}

theorem Compares.irrefl (h : Compares better) (x : F) : better x x = false := by
  cases hx : better x x with
  | false => rfl
  | true => exact (h.asymm x x hx).symm.trans hx |>.symm

theorem Best.plus (h : Compares better) (hr : Best better start S r) (hr' : Best better start T r') :
    Best better start (fun e => S e ∨ T e) (r.plus better r') := by
  rw [ElementValue.plus]
  split
  · next hb =>
    -- the other one is better, also than the start
    have hnot : ∀ e, S e → better e.value r'.value = false := fun e he =>
      h.trans _ _ _ (hr.2 e he) (h.asymm _ _ hb)
    refine ⟨hr'.1.imp_right fun hT => ⟨.inr hT.1, hT.2⟩, fun e he => ?_⟩
    exact he.elim (hnot e) (hr'.2 e)
  · next hb =>
    have hb : better r'.value r.value = false := Bool.eq_false_iff.mpr hb
    refine ⟨hr.1.imp_right fun hS => ⟨.inl hS.1, hS.2⟩, fun e he => ?_⟩
    exact he.elim (hr.2 e) fun hT => h.trans _ _ _ (hr'.2 e hT) hb

theorem Best.congr (h : Best better start S r) (hST : ∀ e, S e ↔ T e) : Best better start T r :=
  ⟨h.1.imp_right fun hS => ⟨(hST r).mp hS.1, hS.2⟩, fun e he => h.2 e ((hST e).mpr he)⟩

/-- a search from element to element -/
theorem best_foldl (h : Compares better) (f : ℕ → ElementValue F) (n : ℕ) :
    Best better start (fun e => ∃ k < n, f k = e) ((List.range n).foldl (fun result k =>
      if better (f k).value result.value then f k else result) ⟨start, -1, -1⟩) := by
  induction n with
  | zero => exact ⟨.inl rfl, fun e ⟨k, hk, _⟩ => (Nat.not_lt_zero k hk).elim⟩
  | succ n ih =>
    rw [List.range_succ, List.foldl_append]
    generalize (List.range n).foldl _ _ = r at ih
    obtain ⟨hr, hbest⟩ := ih
    show Best better start _ (if better (f n).value r.value then f n else r)
    split
    · next hb =>
      have hstart : better (f n).value start = true := by
        rcases hr with rfl | ⟨-, hr⟩
        · exact hb
        · by_contra hnot
          have hle := h.trans _ _ _ (Bool.eq_false_iff.mpr hnot) (h.asymm _ _ hr)
          exact Bool.false_ne_true (hle.symm.trans hb)
      refine ⟨.inr ⟨⟨n, Nat.lt_succ_self n, rfl⟩, hstart⟩, ?_⟩
      rintro e ⟨k, hk, rfl⟩
      rcases Nat.lt_succ_iff_lt_or_eq.mp hk with hk | rfl
      · exact h.trans _ _ _ (hbest _ ⟨k, hk, rfl⟩) (h.asymm _ _ hb)
      · exact h.irrefl _
    · next hb =>
      refine ⟨hr.imp_right fun ⟨⟨k, hk, he⟩, hr⟩ => ⟨⟨k, by omega, he⟩, hr⟩, ?_⟩
      rintro e ⟨k, hk, rfl⟩
      rcases Nat.lt_succ_iff_lt_or_eq.mp hk with hk | rfl
      · exact hbest _ ⟨k, hk, rfl⟩
      · exact Bool.eq_false_iff.mpr hb

end

section
variable [Field F] [LinearOrder F] {better : F → F → Bool} {start : F} {r : ElementValue F}
  {dim : LADimension} {blocks : List (MatrixBlock F)} {A : Mat F} {b : MatrixBlock F}

/-- an element of a matrix with its place -/
def Mat.At (A : Mat F) (e : ElementValue F) : Prop :=
  ∃ x < A.rows, ∃ y < A.cols, e = ⟨A.entry x y, x, y⟩

/-- the elements of a block, with their places in the matrix -/
def InBlock (dim : LADimension) (A : Mat F) (p : ℕ × ℕ) (e : ElementValue F) : Prop :=
  ∃ i < dim.blockRowSize, ∃ j < dim.blockColSize,
    e = ⟨A.entry (p.1 * dim.blockRowSize + i) (p.2 * dim.blockColSize + j),
      (p.1 * dim.blockRowSize + i : ℕ), (p.2 * dim.blockColSize + j : ℕ)⟩

theorem elementValue_best (hbetter : Compares better) (h : Represents dim blocks A) (hb : b ∈ blocks) :
    Best better start (InBlock dim A b.index) (b.elementValue better start) := by
  obtain ⟨hr, hc, hs⟩ := h.sized b hb
  have hsearch : b.elementValue better start = (List.range (dim.blockRowSize * dim.blockColSize)).foldl
      (fun result k => if better (b.data.rawData k) result.value then
        ⟨b.data.rawData k, b.info.blockRowIndex * dim.blockRowSize + (k / dim.blockColSize : ℕ),
          b.info.blockColIndex * dim.blockColSize + (k % dim.blockColSize : ℕ)⟩ else result)
      ⟨start, -1, -1⟩ := by
    rw [MatrixBlock.elementValue, hr, hc, hs]
    rfl
  rw [hsearch]
  refine (best_foldl hbetter (fun k => ⟨b.data.rawData k,
    b.info.blockRowIndex * dim.blockRowSize + (k / dim.blockColSize : ℕ),
    b.info.blockColIndex * dim.blockColSize + (k % dim.blockColSize : ℕ)⟩) _).congr fun e => ?_
  have hplace : ∀ i < dim.blockRowSize, ∀ j < dim.blockColSize,
      b.data.rawData (i * dim.blockColSize + j) =
        A.entry (b.index.1 * dim.blockRowSize + i) (b.index.2 * dim.blockColSize + j) := by
    intro i hi j hj
    rw [← h.coeff b hb i hi j hj, ← hc]
    rfl
  constructor
  · rintro ⟨k, hk, rfl⟩
    have hpos : 0 < dim.blockColSize := Nat.pos_of_mul_pos_left (Nat.zero_lt_of_lt hk)
    have hi : k / dim.blockColSize < dim.blockRowSize := Nat.div_lt_of_lt_mul (Nat.mul_comm .. ▸ hk)
    have hj := Nat.mod_lt k hpos
    have hk' := hplace _ hi _ hj
    rw [Nat.div_add_mod'] at hk'
    refine ⟨_, hi, _, hj, ?_⟩
    rw [hk']
    push_cast
    rfl
  · rintro ⟨i, hi, j, hj, rfl⟩
    refine ⟨i * dim.blockColSize + j, place_lt hi hj, ?_⟩
    rw [hplace i hi j hj, place_div hj, place_mod hj]
    push_cast
    rfl

/-- the elements of all blocks are those of the matrix -/
theorem at_iff_inBlock (h : Represents dim blocks A) (hpos : dim.Positive) (e : ElementValue F) :
    A.At e ↔ ∃ b ∈ blocks, InBlock dim A b.index e := by
  constructor
  · rintro ⟨x, hx, y, hy, rfl⟩
    rw [h.rows] at hx
    rw [h.cols] at hy
    have hp : dim.Has (x / dim.blockRowSize, y / dim.blockColSize) :=
      ⟨Nat.div_lt_of_lt_mul (Nat.mul_comm .. ▸ hx), Nat.div_lt_of_lt_mul (Nat.mul_comm .. ▸ hy)⟩
    obtain ⟨b, hb, hindex⟩ := List.mem_map.mp ((h.mem_index _).mpr hp)
    refine ⟨b, hb, x % dim.blockRowSize, Nat.mod_lt x hpos.rowSize, y % dim.blockColSize,
      Nat.mod_lt y hpos.colSize, ?_⟩
    rw [hindex, Nat.div_add_mod', Nat.div_add_mod']
  · rintro ⟨b, hb, i, hi, j, hj, rfl⟩
    obtain ⟨h1, h2⟩ := h.has hb
    exact ⟨_, h.rows ▸ place_lt h1 hi, _, h.cols ▸ place_lt h2 hj, rfl⟩

/-- the blocks compared in any order -/
theorem element_exact (hbetter : Compares better) (h : Represents dim blocks A) (hpos : dim.Positive)
    (hr : Merged (MatrixBlock.elementValue better start) (ElementValue.plus better) blocks r) :
    Best better start A.At r := by
  have hmerged : ∀ l r, Merged (MatrixBlock.elementValue better start) (ElementValue.plus better) l r →
      (∀ b ∈ l, b ∈ blocks) → Best better start (fun e => ∃ b ∈ l, InBlock dim A b.index e) r := by
    intro l r hr
    induction hr with
    | one b =>
      intro hl
      refine (elementValue_best hbetter h (hl b (List.mem_singleton.mpr rfl))).congr fun e => ?_
      exact ⟨fun he => ⟨b, List.mem_singleton.mpr rfl, he⟩,
        fun ⟨b', hb', he⟩ => List.mem_singleton.mp hb' ▸ he⟩
    | add _ _ ih ih' =>
      intro hl
      refine ((ih fun b hb => hl b (List.mem_append_left _ hb)).plus hbetter
        (ih' fun b hb => hl b (List.mem_append_right _ hb))).congr fun e => ?_
      constructor
      · rintro (⟨b, hb, he⟩ | ⟨b, hb, he⟩)
        · exact ⟨b, List.mem_append_left _ hb, he⟩
        · exact ⟨b, List.mem_append_right _ hb, he⟩
      · rintro ⟨b, hb, he⟩
        exact (List.mem_append.mp hb).imp (fun hb => ⟨b, hb, he⟩) fun hb => ⟨b, hb, he⟩
    | perm _ hperm ih =>
      intro hl
      refine (ih fun b hb => hl b (hperm.mem_iff.mp hb)).congr fun e => ?_
      exact exists_congr fun b => and_congr_left fun _ => hperm.mem_iff
  exact (hmerged blocks r hr fun _ hb => hb).congr fun e => (at_iff_inBlock h hpos e).symm

theorem compares_max : Compares fun x y : F => decide (y < x) where
  asymm _ _ h := decide_eq_false (of_decide_eq_true h).asymm
  trans _ _ _ h h' := decide_eq_false
    (not_lt.mpr ((not_lt.mp (of_decide_eq_false h)).trans (not_lt.mp (of_decide_eq_false h'))))

theorem compares_min : Compares fun x y : F => decide (x < y) where
  asymm _ _ h := decide_eq_false (of_decide_eq_true h).asymm
  trans _ _ _ h h' := decide_eq_false
    (not_lt.mpr ((not_lt.mp (of_decide_eq_false h')).trans (not_lt.mp (of_decide_eq_false h))))

/-- every block has the one key -/
def maxElementAggregate (blocks : List (MatrixBlock F)) (out : List (ℤ × ElementValue F)) : Prop :=
  Aggregates (fun _ => 1) MatrixBlock.getMaxElementValue ElementValue.maxPlus blocks out

def minElementAggregate (blocks : List (MatrixBlock F)) (out : List (ℤ × ElementValue F)) : Prop :=
  Aggregates (fun _ => 1) MatrixBlock.getMinElementValue ElementValue.minPlus blocks out

theorem blocks_ne_nil (h : Represents dim blocks A) (hpos : dim.Positive) : blocks ≠ [] := by
  rintro rfl
  have hmem := (h.mem_index (0, 0)).mpr ⟨hpos.rowNum, hpos.colNum⟩
  exact List.not_mem_nil hmem

/-- inputs of one key have one result -/
theorem one_output {β γ : Type} {value : β → γ} {plus : γ → γ → γ} {inputs : List β}
    {out : List (ℤ × γ)} (h : Aggregates (fun _ => (1 : ℤ)) value plus inputs out)
    (hne : inputs ≠ []) : ∃ r, out = [(1, r)] ∧ Merged value plus inputs r := by
  obtain ⟨a, ha⟩ := List.exists_mem_of_ne_nil _ hne
  obtain ⟨r, hr⟩ := h.exists_output ha
  have hall : ∀ e ∈ out, e.1 = 1 := by
    intro e he
    obtain ⟨-, -, hk⟩ := (h.keys e.1).mp (List.mem_map_of_mem he)
    exact hk.symm
  have hlen : out.length ≤ 1 := by
    have hkeys : (out.map Prod.fst).length ≤ [(1 : ℤ)].length :=
      (h.keyed.subperm fun k hk => by
        obtain ⟨e, he, rfl⟩ := List.mem_map.mp hk
        exact List.mem_singleton.mpr (hall e he)).length_le
    rwa [List.length_map] at hkeys
  have hout : out = [(1, r)] := by
    rcases out with - | ⟨e, - | ⟨e', rest⟩⟩
    · exact (List.not_mem_nil hr).elim
    · rw [← List.mem_singleton.mp hr]
    · exact absurd hlen (by rw [List.length_cons, List.length_cons]; omega)
  refine ⟨r, hout, ?_⟩
  have hm := h.merged _ hr
  rwa [List.filter_eq_self.mpr fun _ _ => decide_eq_true rfl] at hm

end

end LinearAlgebra
end Netsdb
