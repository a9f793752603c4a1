import Mathlib.Algebra.CharZero.Defs
import Mathlib.Data.Int.Cast.Lemmas
import Mathlib.Data.Nat.Find
import Netsdb.Lib.Attempts
import Netsdb.Lib.Scatter

/-!
# Blocks of a file (`LAEvaluateFunctions.cc`, the case `load`)

The file has two indices and the values for each block.  When the memory is full the loader sends what it has,
and does the block that was interrupted again.

* `LABlocks.step`     one turn of the loop over the blocks;
* `LABlocks.Loads`    each block of the file is sent once;
* `loads_iff_fits`    it is, where no block is read and then not appended.
-/

set_option linter.unusedSectionVars false

namespace Netsdb.LABlocks
variable {V : Type}

/-! ## The loader -/

/-- the numbers of the file, as they are printed -/
inductive Token (V : Type)
  | int (n : ℤ)
  | real (v : V)

/-- a number that is read to a `double` -/
def Token.double [IntCast V] : Token V → V
  | int n => n
  | real v => v

/-- `dim`, `totalRows`, `totalCols` and `totalBlocks` of the node -/
structure Plan where
  blockRowSize : ℕ
  blockColSize : ℕ
  totalRows : ℕ
  totalCols : ℕ
  totalBlocks : ℕ

structure MatrixBlock (V : Type) where
  blockRowIndex : ℤ
  blockColIndex : ℤ
  rowNums : ℕ
  colNums : ℕ
  totalRows : ℕ
  totalCols : ℕ
  rawData : ℕ → V

structure State (V : Type) where
  input : List (Token V)
  i : ℤ
  j : ℤ
  rollback : Bool
  writtenBlocks : ℕ
  makes : Attempts
  appends : Attempts
  storeMatrix : List (MatrixBlock V)
  sent : List (MatrixBlock V)

/-- the exception handler -/
def State.redo (s : State V) : State V :=
  { s with sent := s.sent ++ s.storeMatrix, storeMatrix := [], rollback := true }

/-- `input >> i`, for an `int`; of a number with a fraction only a part is read, which `split` tells -/
def readInt (split : V → List (Token V) → ℤ × List (Token V)) (i : ℤ) :
    List (Token V) → ℤ × List (Token V)
  | [] => (i, [])
  | .int n :: rest => (n, rest)
  | .real v :: rest => split v rest

/-- `input >> value` -/
def readDouble [IntCast V] (value : V) : List (Token V) → V × List (Token V)
  | [] => (value, [])
  | t :: rest => (t.double, rest)

/-- what the loops over a block change -/
structure Filling (V : Type) where
  value : V
  input : List (Token V)
  rawData : ℕ → V

section
variable [Zero V] [IntCast V] (p : Plan)

def readCell (s : Filling V) (c : ℕ × ℕ) : Filling V :=
  let read := readDouble s.value s.input
  ⟨read.1, read.2, Function.update s.rawData (c.1 * p.blockColSize + c.2) read.1⟩

def fill (s : Filling V) : Filling V :=
  (nested p.blockRowSize p.blockColSize).foldl (readCell p) s

/-- the indices of the next block -/
def readIndices (split : V → List (Token V) → ℤ × List (Token V)) (s : State V) : State V :=
  if s.rollback then { s with rollback := false }
  else
    let (i, input) := readInt split s.i s.input
    let (j, input) := readInt split s.j input
    { s with i, j, input }

/-- `none`: all blocks are written -/
def step (split : V → List (Token V) → ℤ × List (Token V)) (makeFaults appendFaults : ℕ → ℕ)
    (s : State V) : Option (State V) :=
  if s.writtenBlocks < p.totalBlocks then
    let s := readIndices split s
    if s.makes.Fails makeFaults then some { s with makes := s.makes.fail }.redo
    else
      let filling := fill p ⟨0, s.input, fun _ => 0⟩
      let s := { s with makes := s.makes.succeed, input := filling.input }
      if s.appends.Fails appendFaults then some { s with appends := s.appends.fail }.redo
      else
        some { s with
          appends := s.appends.succeed
          storeMatrix := s.storeMatrix ++ [⟨s.i, s.j, p.blockRowSize, p.blockColSize, p.totalRows,
            p.totalCols, filling.rawData⟩]
          writtenBlocks := s.writtenBlocks + 1 }
  else none

/-- the values of a block -/
def Plan.size (p : Plan) : ℕ := p.blockRowSize * p.blockColSize

/-- a block of the file -/
structure Entry (V : Type) where
  i : ℤ
  j : ℤ
  values : ℕ → Token V

def Entry.tokens (p : Plan) (e : Entry V) : List (Token V) :=
  .int e.i :: .int e.j :: (List.range p.size).map e.values

def Entry.block (p : Plan) (e : Entry V) : MatrixBlock V :=
  ⟨e.i, e.j, p.blockRowSize, p.blockColSize, p.totalRows, p.totalCols,
    fun t => if t < p.size then (e.values t).double else 0⟩

def start (file : ℕ → Entry V) : State V :=
  { input := (List.range p.totalBlocks).flatMap fun k => (file k).tokens p
    i := 0, j := 0, rollback := false, writtenBlocks := 0, makes := .start, appends := .start
    storeMatrix := [], sent := [] }

/-- each block of the file is sent once -/
def Loads (V : Type) [Zero V] [IntCast V] (split : V → List (Token V) → ℤ × List (Token V))
    (makeFaults appendFaults : ℕ → ℕ) : Prop :=
  ∀ file : ℕ → Entry V, ∃ s, Steps (step p split makeFaults appendFaults) (start p file) s ∧
    ¬ s.writtenBlocks < p.totalBlocks ∧
    (s.sent ++ s.storeMatrix).Perm ((List.range p.totalBlocks).map fun k => (file k).block p)

/-- blocks without values, or none that could not be appended -/
def Fits (appendFaults : ℕ → ℕ) : Prop :=
  p.size = 0 ∨ ∀ k < p.totalBlocks, appendFaults k = 0

end

/-! ## Filling a block -/

section
variable [Zero V] [IntCast V] {p : Plan}

theorem fill_eq (rest : List (Token V)) (f : ℕ → Token V) (data : ℕ → V) (value : V) : ∃ value',
    fill p ⟨value, (List.range p.size).map f ++ rest, data⟩ =
      ⟨value', rest, fun t => if t < p.size then (f t).double else data t⟩ := by
  rw [fill, nested_eq_map, List.foldl_map]
  have hrun : ∀ n ≤ p.size, ∃ value', (List.range n).foldl
      (fun s t => readCell p s (t / p.blockColSize, t % p.blockColSize))
      ⟨value, (List.range p.size).map f ++ rest, data⟩ =
      ⟨value', (List.range' n (p.size - n)).map f ++ rest,
        fun t => if t < n then (f t).double else data t⟩ := by
    intro n hn
    induction n with
    | zero =>
      refine ⟨value, ?_⟩
      rw [Nat.sub_zero, ← List.range_eq_range']
      rfl
    | succ n ih =>
      obtain ⟨value', hv⟩ := ih (by omega)
      have hlist : (List.range' n (p.size - n)).map f ++ rest =
          f n :: ((List.range' (n + 1) (p.size - (n + 1))).map f ++ rest) := by
        rw [show p.size - n = p.size - (n + 1) + 1 by omega, List.range'_succ]
        rfl
      refine ⟨(f n).double, ?_⟩
      rw [List.range_succ, List.foldl_append, hv, hlist]
      show Filling.mk (f n).double _ (Function.update _
        (n / p.blockColSize * p.blockColSize + n % p.blockColSize) (f n).double) = _
      rw [Nat.div_add_mod']
      congr 1
      funext t
      rw [Function.update_apply]
      by_cases ht : t = n
      · rw [if_pos ht, if_pos (by omega), ht]
      · rw [if_neg ht]
        by_cases hlt : t < n
        · exact (if_pos hlt).trans (if_pos (by omega)).symm
        · exact (if_neg hlt).trans (if_neg (by omega)).symm
  obtain ⟨value', hv⟩ := hrun p.size (le_refl _)
  refine ⟨value', ?_⟩
  rw [Nat.sub_self] at hv
  exact hv

/-- what all numbers that are left have, the values of a block have -/
theorem cells_all {P : Token V → Prop} {Q : V → Prop} (hPQ : ∀ t, P t → Q t.double)
    (cells : List (ℕ × ℕ)) : ∀ {s : Filling V}, (∀ t ∈ s.input, P t) → Q s.value →
      (∀ t ∈ (cells.foldl (readCell p) s).input, P t) ∧
        ∀ x, ((∃ c ∈ cells, c.1 * p.blockColSize + c.2 = x) ∨ Q (s.rawData x)) →
          Q ((cells.foldl (readCell p) s).rawData x) := by
  induction cells with
  | nil =>
    intro s hs hv
    exact ⟨hs, fun x hx => hx.elim (fun ⟨c, hc, _⟩ => nomatch hc) id⟩
  | cons c cells ih =>
    intro s hs hv
    have hread : (∀ t ∈ (readDouble s.value s.input).2, P t) ∧ Q (readDouble s.value s.input).1 := by
      cases hin : s.input with
      | nil => exact ⟨fun t ht => (nomatch ht), hv⟩
      | cons t rest =>
        rw [hin] at hs
        exact ⟨fun t' ht => hs t' (List.mem_cons_of_mem t ht), hPQ t (hs t List.mem_cons_self)⟩
    obtain ⟨hinput, hdata⟩ := ih (s := readCell p s c) hread.1 hread.2
    refine ⟨hinput, fun x hx => hdata x ?_⟩
    by_cases hc : c.1 * p.blockColSize + c.2 = x
    · refine .inr ?_
      show Q (Function.update s.rawData _ _ x)
      rw [hc, Function.update_self]
      exact hread.2
    · rcases hx with ⟨c', hc', hx⟩ | hx
      · rcases List.mem_cons.mp hc' with rfl | hc'
        · exact absurd hx hc
        · exact .inl ⟨c', hc', hx⟩
      · refine .inr ?_
        show Q (Function.update s.rawData _ _ x)
        rw [Function.update_of_ne (Ne.symm hc)]
        exact hx

theorem fill_all {P : Token V → Prop} {Q : V → Prop} (hPQ : ∀ t, P t → Q t.double) {s : Filling V}
    (hs : ∀ t ∈ s.input, P t) (hv : Q s.value) :
    (∀ t ∈ (fill p s).input, P t) ∧ ∀ t < p.size, Q ((fill p s).rawData t) := by
  obtain ⟨hinput, hdata⟩ := cells_all hPQ (nested p.blockRowSize p.blockColSize) hs hv
  refine ⟨hinput, fun t ht => hdata t (.inl ⟨(t / p.blockColSize, t % p.blockColSize), ?_, ?_⟩)⟩
  · have hcol : 0 < p.blockColSize := Nat.pos_of_mul_pos_left (lt_of_le_of_lt (Nat.zero_le t) ht)
    exact mem_nested.mpr ⟨Nat.div_lt_of_lt_mul (Nat.mul_comm _ _ ▸ ht), Nat.mod_lt t hcol⟩
  · exact Nat.div_add_mod' t p.blockColSize

end

/-! ## Aligned -/

section
variable [Zero V] [IntCast V] {p : Plan} {split : V → List (Token V) → ℤ × List (Token V)}
  {makeFaults appendFaults : ℕ → ℕ} {file : ℕ → Entry V} {s t : State V}

/-- the numbers of the blocks from `k` on -/
def rest (p : Plan) (file : ℕ → Entry V) (k : ℕ) : List (Token V) :=
  ((List.range p.totalBlocks).drop k).flatMap fun k => (file k).tokens p

theorem rest_eq {k : ℕ} (hk : k < p.totalBlocks) :
    rest p file k = (file k).tokens p ++ rest p file (k + 1) := by
  rw [rest, List.drop_eq_getElem_cons (by rw [List.length_range]; exact hk), List.flatMap_cons,
    List.getElem_range]
  rfl

/-- before a block; on a rollback its indices have been read -/
structure Aligned (p : Plan) (file : ℕ → Entry V) (s : State V) : Prop where
  bound : s.writtenBlocks ≤ p.totalBlocks
  sent : s.sent ++ s.storeMatrix = (List.range s.writtenBlocks).map fun k => (file k).block p
  appends : s.appends.made = s.writtenBlocks
  failed : p.size = 0 ∨ s.appends.failed = 0
  input : if s.rollback then
      s.i = (file s.writtenBlocks).i ∧ s.j = (file s.writtenBlocks).j ∧
        s.input = (List.range p.size).map (file s.writtenBlocks).values ++ rest p file (s.writtenBlocks + 1)
    else s.input = rest p file s.writtenBlocks

theorem aligned_start (file : ℕ → Entry V) : Aligned p file (start p file) := ⟨Nat.zero_le _, rfl, rfl, .inr rfl, rfl⟩

/-- the indices of the block -/
theorem Aligned.readIndices (h : Aligned p file s) (hk : s.writtenBlocks < p.totalBlocks) :
    readIndices split s = { s with
      i := (file s.writtenBlocks).i, j := (file s.writtenBlocks).j, rollback := false
      input := (List.range p.size).map (file s.writtenBlocks).values ++
        rest p file (s.writtenBlocks + 1) } := by
  obtain ⟨input, i, j, rollback, writtenBlocks, makes, appends, store, sent⟩ := s
  have hin := h.input
  cases rollback with
  | true =>
    change i = (file writtenBlocks).i ∧ j = (file writtenBlocks).j ∧
      input = (List.range p.size).map (file writtenBlocks).values ++ rest p file (writtenBlocks + 1) at hin
    obtain ⟨rfl, rfl, rfl⟩ := hin
    rfl
  | false =>
    have hin := hin.trans (rest_eq hk)
    change input = (file writtenBlocks).tokens p ++ rest p file (writtenBlocks + 1) at hin
    subst hin
    rfl

/-- a turn of the loop: the block could not be made, or could not be appended, or is done -/
theorem Aligned.step (h : Aligned p file s) (hk : s.writtenBlocks < p.totalBlocks)
    (ht : step p split makeFaults appendFaults s = some t) :
    Aligned p file t ∧ (t.writtenBlocks = s.writtenBlocks ∨
        t.writtenBlocks = s.writtenBlocks + 1 ∧ ¬ s.appends.Fails appendFaults) ∨
      s.appends.Fails appendFaults ∧ 0 < p.size ∧ t.sent ++ t.storeMatrix = s.sent ++ s.storeMatrix ∧
      t.input = rest p file (s.writtenBlocks + 1) := by
  rw [LABlocks.step, if_pos hk, h.readIndices hk] at ht
  dsimp only at ht
  split at ht
  · cases ht
    refine .inl ⟨⟨h.bound, ?_, h.appends, h.failed, rfl, rfl, rfl⟩, .inl rfl⟩
    show (s.sent ++ s.storeMatrix) ++ [] = _
    rw [List.append_nil, h.sent]
    rfl
  · obtain ⟨value, hfill⟩ := fill_eq (p := p) (rest p file (s.writtenBlocks + 1))
      (file s.writtenBlocks).values (fun _ => 0) 0
    rw [hfill] at ht
    dsimp only at ht
    split at ht
    · next hfails =>
      cases ht
      rcases Nat.eq_zero_or_pos p.size with h0 | hpos
      · refine .inl ⟨⟨h.bound, ?_, h.appends, .inl h0, rfl, rfl, ?_⟩, .inl rfl⟩
        · show (s.sent ++ s.storeMatrix) ++ [] = _
          rw [List.append_nil, h.sent]
          rfl
        · rw [h0]
          rfl
      · refine .inr ⟨hfails, hpos, ?_, rfl⟩
        show (s.sent ++ s.storeMatrix) ++ [] = _
        exact List.append_nil _
    · next hfails =>
      cases ht
      refine .inl ⟨⟨hk, ?_, congrArg Nat.succ h.appends, .inr rfl, rfl⟩, .inr ⟨rfl, hfails⟩⟩
      show s.sent ++ (s.storeMatrix ++ [_]) = (List.range (s.writtenBlocks + 1)).map _
      rw [← List.append_assoc, h.sent, List.range_succ, List.map_append]
      rfl

/-- fewer blocks, or fewer failures to come -/
def left (p : Plan) (makeFaults appendFaults : ℕ → ℕ) (s : State V) : ℕ × ℕ × ℕ :=
  (p.totalBlocks - s.writtenBlocks, s.appends.left appendFaults, s.makes.left makeFaults)

theorem step_some (split : V → List (Token V) → ℤ × List (Token V)) (makeFaults appendFaults : ℕ → ℕ)
    (hk : s.writtenBlocks < p.totalBlocks) : ∃ t, step p split makeFaults appendFaults s = some t ∧
      Prod.Lex (· < ·) (Prod.Lex (· < ·) (· < ·)) (left p makeFaults appendFaults t)
        (left p makeFaults appendFaults s) := by
  have hread : (readIndices split s).writtenBlocks = s.writtenBlocks ∧
      (readIndices split s).makes = s.makes ∧ (readIndices split s).appends = s.appends := by
    unfold LABlocks.readIndices
    split <;> exact ⟨rfl, rfl, rfl⟩
  rw [LABlocks.step, if_pos hk]
  generalize LABlocks.readIndices split s = r at hread ⊢
  obtain ⟨hw, hm, ha⟩ := hread
  have hleft : left p makeFaults appendFaults r = left p makeFaults appendFaults s := by
    rw [left, left, hw, hm, ha]
  rw [← hleft]
  dsimp only
  split
  · next hf => exact ⟨_, rfl, Prod.Lex.right _ (Prod.Lex.right _ (Attempts.left_fail hf))⟩
  · split
    · next hf => exact ⟨_, rfl, Prod.Lex.right _ (Prod.Lex.left _ _ (Attempts.left_fail hf))⟩
    · refine ⟨_, rfl, Prod.Lex.left _ _ ?_⟩
      show p.totalBlocks - (r.writtenBlocks + 1) < p.totalBlocks - r.writtenBlocks
      omega

/-- each turn redoes or finishes a block -/
theorem loads_of_fits (h : Fits p appendFaults) : Loads p V split makeFaults appendFaults := by
  intro file
  have hwf : WellFounded (Prod.Lex (· < ·) (Prod.Lex (· < ·) (· < ·)) : ℕ × ℕ × ℕ → ℕ × ℕ × ℕ → Prop) :=
    WellFounded.prod_lex Nat.lt_wfRel.wf (WellFounded.prod_lex Nat.lt_wfRel.wf Nat.lt_wfRel.wf)
  obtain ⟨s, hsteps, hdone, hs⟩ := Steps.exists_done hwf (left (V := V) p makeFaults appendFaults)
    (Aligned p file) (fun s => ¬ s.writtenBlocks < p.totalBlocks) (fun s hs hd => by
      have hk := not_not.mp hd
      obtain ⟨t, ht, hlt⟩ := step_some split makeFaults appendFaults hk
      refine ⟨t, ht, ?_, hlt⟩
      rcases hs.step hk ht with ⟨ha, -⟩ | ⟨hfails, hpos, -⟩
      · exact ha
      · have hzero := h.resolve_left hpos.ne' _ hk
        have hfails : s.appends.failed < appendFaults s.appends.made := hfails
        rw [hs.appends, hzero] at hfails
        exact absurd hfails (Nat.not_lt_zero _)) (aligned_start file)
  refine ⟨s, hsteps, hdone, ?_⟩
  rw [hs.sent, le_antisymm hs.bound (Nat.not_lt.mp hdone)]

end

/-! ## Out of step -/

section
variable [AddGroupWithOne V] {p : Plan} {split : V → List (Token V) → ℤ × List (Token V)}
  {makeFaults appendFaults : ℕ → ℕ} {s t : State V}

/-- a number that is not 1 -/
def Plain (t : Token V) : Prop := ∃ n, t = .int n ∧ n ≠ 1

/-- no block with a 1 has been sent, and there is no 1 left -/
structure Lost (s : State V) : Prop where
  sent : ∀ b ∈ s.sent ++ s.storeMatrix, b.rawData 0 ≠ 1
  input : ∀ t ∈ s.input, Plain t

theorem plain_readInt {i : ℤ} {l : List (Token V)} (h : ∀ t ∈ l, Plain t) :
    ∀ t ∈ (readInt split i l).2, Plain t := by
  cases l with
  | nil => exact h
  | cons t l =>
    obtain ⟨n, rfl, -⟩ := h t List.mem_cons_self
    exact fun t' ht => h t' (List.mem_cons_of_mem _ ht)

theorem Lost.step [CharZero V] (h : Lost s) (hpos : 0 < p.size)
    (ht : step p split makeFaults appendFaults s = some t) : Lost t := by
  have hread : (readIndices split s).sent ++ (readIndices split s).storeMatrix = s.sent ++ s.storeMatrix ∧
      ∀ t ∈ (readIndices split s).input, Plain t := by
    unfold LABlocks.readIndices
    split
    · exact ⟨rfl, h.input⟩
    · exact ⟨rfl, plain_readInt (plain_readInt h.input)⟩
  obtain ⟨hsent, hinput⟩ := hread
  obtain ⟨hfilled, hdata⟩ := fill_all (p := p) (P := Plain) (Q := fun v : V => v ≠ 1)
    (fun t ⟨n, hn, hne⟩ => by
      rw [hn]
      exact fun h1 => hne (Int.cast_injective (h1.trans Int.cast_one.symm)))
    (s := ⟨0, (readIndices split s).input, fun _ => 0⟩) hinput zero_ne_one
  rw [LABlocks.step] at ht
  split at ht
  · dsimp only at ht
    split at ht
    · cases ht
      refine ⟨fun b hb => h.sent b (hsent ▸ ?_), hinput⟩
      change b ∈ ((readIndices split s).sent ++ (readIndices split s).storeMatrix) ++ [] at hb
      rw [List.append_nil] at hb
      exact hb
    · split at ht
      · cases ht
        refine ⟨fun b hb => h.sent b (hsent ▸ ?_), hfilled⟩
        change b ∈ ((readIndices split s).sent ++ (readIndices split s).storeMatrix) ++ [] at hb
        rw [List.append_nil] at hb
        exact hb
      · cases ht
        refine ⟨fun b hb => ?_, hfilled⟩
        change b ∈ (readIndices split s).sent ++ ((readIndices split s).storeMatrix ++ [_]) at hb
        rw [← List.append_assoc, List.mem_append, hsent, List.mem_singleton] at hb
        rcases hb with hb | rfl
        · exact h.sent b hb
        · exact hdata 0 hpos
  · cases ht

/-- only block `k` has ones -/
def marked (k₀ k : ℕ) : Entry V := ⟨0, 2 * k, fun _ => .int (if k = k₀ then 1 else 0)⟩

/-- behind block `k₀` there is no 1 -/
theorem plain_rest (k₀ : ℕ) : ∀ t ∈ rest p (marked (V := V) k₀) (k₀ + 1), Plain t := by
  intro t ht
  obtain ⟨k, hk, ht⟩ := List.mem_flatMap.mp ht
  obtain ⟨n, hn⟩ := List.mem_iff_getElem?.mp hk
  rw [List.getElem?_drop] at hn
  obtain ⟨hlt, heq⟩ := List.getElem?_eq_some_iff.mp hn
  rw [List.getElem_range] at heq
  rcases List.mem_cons.mp ht with rfl | ht
  · exact ⟨0, rfl, zero_ne_one⟩
  rcases List.mem_cons.mp ht with rfl | ht
  · exact ⟨2 * k, rfl, by omega⟩
  · obtain ⟨i, -, rfl⟩ := List.mem_map.mp ht
    exact ⟨if k = k₀ then 1 else 0, rfl, by rw [if_neg (by omega)]; exact zero_ne_one⟩

theorem fits_of_loads [CharZero V] (h : Loads p V split makeFaults appendFaults) :
    Fits p appendFaults := by
  by_contra hnot
  rw [Fits, not_or] at hnot
  obtain ⟨hsize, hex⟩ := hnot
  have hpos : 0 < p.size := Nat.pos_of_ne_zero hsize
  push Not at hex
  obtain ⟨hk₀, hfaults⟩ := Nat.find_spec hex
  have hleast := fun k => Nat.find_min hex (m := k)
  generalize Nat.find hex = k₀ at hk₀ hfaults hleast
  obtain ⟨s, hsteps, hdone, hperm⟩ := h (marked k₀)
  have hinv : (Aligned p (marked k₀) s ∧ s.writtenBlocks ≤ k₀) ∨ Lost s := by
    refine hsteps.inv (P := fun s => (Aligned p (marked k₀) s ∧ s.writtenBlocks ≤ k₀) ∨ Lost s)
      (.inl ⟨aligned_start _, Nat.zero_le _⟩) fun s t hs ht => ?_
    rcases hs with ⟨ha, hle⟩ | hl
    · have hk : s.writtenBlocks < p.totalBlocks := by omega
      have hfailed := ha.failed.resolve_left hsize
      rcases ha.step hk ht with ⟨ha', hmore⟩ | ⟨hfails, -, hsent, hinput⟩
      · refine .inl ⟨ha', ?_⟩
        rcases hmore with heq | ⟨heq, hnot⟩
        · exact heq.trans_le hle
        · rw [heq]
          refine lt_of_le_of_ne hle fun hlast => hnot ?_
          -- block `k₀` cannot be appended
          show s.appends.failed < appendFaults s.appends.made
          rw [hfailed, ha.appends, hlast]
          exact Nat.pos_of_ne_zero hfaults
      · have hlast : s.writtenBlocks = k₀ := by
          refine le_antisymm hle (Nat.not_lt.mp fun hlt => hleast _ hlt ⟨hk, ?_⟩)
          have hfails : s.appends.failed < appendFaults s.appends.made := hfails
          rw [hfailed, ha.appends] at hfails
          exact hfails.ne'
        refine .inr ⟨?_, ?_⟩
        · rw [hsent, ha.sent]
          intro b hb
          obtain ⟨k, hk, rfl⟩ := List.mem_map.mp hb
          have hk := List.mem_range.mp hk
          show (if 0 < p.size then ((if k = k₀ then (1 : ℤ) else 0 : ℤ) : V) else 0) ≠ 1
          rw [if_pos hpos, if_neg (by omega), Int.cast_zero]
          exact zero_ne_one
        · rw [hinput, hlast]
          exact plain_rest k₀
    · exact .inr (hl.step hpos ht)
  rcases hinv with ⟨-, hle⟩ | hl
  · omega
  · -- the block with ones is missing
    have hmem := hperm.mem_iff.mpr (List.mem_map.mpr ⟨k₀, List.mem_range.mpr hk₀, rfl⟩)
    refine hl.sent _ hmem ?_
    show (if 0 < p.size then ((if k₀ = k₀ then (1 : ℤ) else 0 : ℤ) : V) else 0) = 1
    rw [if_pos hpos, if_pos rfl, Int.cast_one]

/-- **Each block of the file is sent once just where none has to be appended twice, or blocks have no
values.** -/
theorem loads_iff_fits [CharZero V] : Loads p V split makeFaults appendFaults ↔ Fits p appendFaults :=
  ⟨fits_of_loads, loads_of_fits⟩

end
end Netsdb.LABlocks
