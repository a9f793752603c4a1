import Mathlib.Algebra.BigOperators.Group.Finset.Basic
import Netsdb.Lib.Attempts
import Netsdb.Lib.Binary32
import Netsdb.Lib.Scatter

/-!
# A matrix file, cut into blocks (`FFMatrixUtil.cc`)

The loader reads the values one after the other while it fills the blocks.  It may run out of memory
when a block is made, and when it is appended; then it sends what it has and enters the loops again.

* `LoadMatrix.step`       one turn of the loop over the blocks, with what is done on an exception;
* `LoadMatrix.Loads`      the blocks that are sent are the matrix;
* `loads_iff`             they are where no block is appended twice and the values of a block are next to
                          each other in the file.
-/

set_option linter.unusedSectionVars false

namespace Netsdb.LoadMatrix
variable {V : Type}

/-! ## The loader -/

/-- the sizes of the matrix and of its blocks -/
structure Plan where
  totalX : ℕ
  totalY : ℕ
  blockX : ℕ
  blockY : ℕ
  dontPadX : Bool
  dontPadY : Bool
  blockX_pos : 0 < blockX
  blockY_pos : 0 < blockY

namespace Plan
variable (p : Plan)

def numXBlocks : ℕ := Binary32.ceilDiv p.totalX p.blockX

def numYBlocks : ℕ := Binary32.ceilDiv p.totalY p.blockY

def actualBlockX (i : ℕ) : ℕ :=
  if p.dontPadX then min p.blockX (p.totalX - i * p.blockX) else p.blockX

def actualBlockY (j : ℕ) : ℕ :=
  if p.dontPadY then min p.blockY (p.totalY - j * p.blockY) else p.blockY

end Plan

/-- `rawData` is the memory from `c_ptr ()` on -/
structure Block (V : Type) where
  blockRowIndex : ℕ
  blockColIndex : ℕ
  rowNums : ℕ
  colNums : ℕ
  totalRows : ℕ
  totalCols : ℕ
  rawData : ℕ → V

def Block.index (b : Block V) : ℕ × ℕ := (b.blockRowIndex, b.blockColIndex)

/-- the numbers of the file that are not read yet, and the variable they are read to -/
structure Input (V : Type) where
  rest : List V
  val : V

/-- `is >> val`: at the end of the file the variable keeps its value -/
def Input.next (s : Input V) : Input V :=
  match s.rest with
  | [] => s
  | v :: rest => ⟨rest, v⟩

/-- `todo`: the blocks that the loops over `i` and `j` have not done; `jj` is 0 wherever an exception may be
caught -/
structure State (V : Type) where
  todo : List (ℕ × ℕ)
  ii : ℕ
  input : Input V
  makes : Attempts
  appends : Attempts
  storeMatrix : List (Block V)
  sent : List (Block V)

/-- the exception handler -/
def State.dispatch (s : State V) : State V :=
  { s with sent := s.sent ++ s.storeMatrix, storeMatrix := [] }

section
variable [Zero V] (p : Plan)

/-- the two loops in a block, over the cells that are left -/
def fill (i j actualX actualY : ℕ) (cells : List (ℕ × ℕ)) (s : Input V × (ℕ → V)) :
    Input V × (ℕ → V) :=
  cells.foldl (fun s c =>
    let input := s.1.next
    (input, Function.update s.2 (c.1 * actualY + c.2)
      (if p.totalX ≤ i * actualX + c.1 ∨ p.totalY ≤ j * actualY + c.2 then 0 else input.val))) s

/-- `exit (1)` -/
def shouldntBeHere (i j actualX actualY : ℕ) (c : ℕ × ℕ) : Prop :=
  p.dontPadX ∧ p.totalX ≤ i * actualX + c.1 ∨ p.dontPadY ∧ p.totalY ≤ j * actualY + c.2

instance (i j actualX actualY : ℕ) (c : ℕ × ℕ) : Decidable (shouldntBeHere p i j actualX actualY c) :=
  inferInstanceAs (Decidable (_ ∨ _))

/-- `none`: there is no block left, the number of rows or columns is negative, or `exit (1)` -/
def step (makeFaults appendFaults : ℕ → ℕ) (s : State V) : Option (State V) :=
  match s.todo with
  | [] => none
  | (i, j) :: todo =>
    let actualX := p.actualBlockX i
    let actualY := p.actualBlockY j
    if p.dontPadX ∧ p.totalX < i * p.blockX ∨ p.dontPadY ∧ p.totalY < j * p.blockY then none
    else if s.makes.Fails makeFaults then some { s with makes := s.makes.fail }.dispatch
    else
      let cells := List.range' s.ii (actualX - s.ii) ×ˢ List.range actualY
      if ∃ c ∈ cells, shouldntBeHere p i j actualX actualY c then none
      else
        let filled := fill p i j actualX actualY cells (s.input, fun _ => 0)
        let s := { s with makes := s.makes.succeed, input := filled.1, ii := max s.ii actualX }
        if s.appends.Fails appendFaults then some { s with appends := s.appends.fail }.dispatch
        else
          some { s with
            appends := s.appends.succeed
            storeMatrix := s.storeMatrix ++ [⟨i, j, actualX, actualY, p.totalX, p.totalY, filled.2⟩]
            todo, ii := 0 }

/-- `file k` is the number `k` of the file; the variable `val` is not initialized -/
def start (file : ℕ → V) (val : V) : State V :=
  { todo := nested p.numXBlocks p.numYBlocks, ii := 0
    input := ⟨(List.range (p.totalX * p.totalY)).map file, val⟩
    makes := .start, appends := .start, storeMatrix := [], sent := [] }

/-- blocks that are the matrix of the file -/
structure Right (file : ℕ → V) (blocks : List (Block V)) : Prop where
  once : (blocks.map Block.index).Nodup
  grid : ∀ i j, (i, j) ∈ blocks.map Block.index ↔ i * p.blockX < p.totalX ∧ j * p.blockY < p.totalY
  sizes : ∀ b ∈ blocks, b.totalRows = p.totalX ∧ b.totalCols = p.totalY ∧
    b.rowNums = p.actualBlockX b.blockRowIndex ∧ b.colNums = p.actualBlockY b.blockColIndex
  values : ∀ b ∈ blocks, ∀ ii < b.rowNums, ∀ jj < b.colNums, b.rawData (ii * b.colNums + jj) =
    if b.blockRowIndex * p.blockX + ii < p.totalX ∧ b.blockColIndex * p.blockY + jj < p.totalY then
      file ((b.blockRowIndex * p.blockX + ii) * p.totalY + (b.blockColIndex * p.blockY + jj))
    else 0

/-- the loader ends, and has sent the matrix -/
def Loads (V : Type) [Zero V] (makeFaults appendFaults : ℕ → ℕ) : Prop :=
  ∀ (file : ℕ → V) (val : V), ∃ s, Steps (step p makeFaults appendFaults) (start p file val) s ∧
    s.todo = [] ∧ Right p file (s.sent ++ s.storeMatrix)

end

/-! ## Reading -/

section
variable {l : List V} {val : V} {k : ℕ}

/-- after `k` numbers -/
def inputAt (l : List V) (val : V) (k : ℕ) : Input V := ⟨l.drop k, (l.take k).getLast?.getD val⟩

theorem next_inputAt : (inputAt l val k).next = inputAt l val (k + 1) := by
  unfold Input.next inputAt
  cases hrest : l.drop k with
  | nil =>
    have hlen := List.drop_eq_nil_iff.mp hrest
    dsimp only
    rw [List.take_of_length_le hlen, List.take_of_length_le (by omega),
      List.drop_eq_nil_iff.mpr (by omega)]
  | cons v rest =>
    have hlt : k < l.length := by
      by_contra hge
      rw [List.drop_eq_nil_iff.mpr (by omega)] at hrest
      cases hrest
    rw [List.drop_eq_getElem_cons hlt] at hrest
    obtain ⟨rfl, rfl⟩ := List.cons.inj hrest
    rw [List.take_succ_eq_append_getElem hlt, List.getLast?_append]
    rfl

/-- a number of the file; behind its end the last one is kept -/
theorem val_inputAt {file : ℕ → V} {total : ℕ} (htotal : 0 < total) :
    (inputAt ((List.range total).map file) val (k + 1)).val = file (min k (total - 1)) := by
  have hmin : min (k + 1) total = min k (total - 1) + 1 := by omega
  rw [inputAt, ← List.map_take, List.take_range, hmin, List.range_succ, List.map_append,
    List.getLast?_append]
  rfl

/-- element `t` of a block that begins at number `pos` of the file -/
def content [Zero V] (p : Plan) (l : List V) (val : V) (pos i j t : ℕ) : V :=
  if p.totalX ≤ i * p.actualBlockX i + t / p.actualBlockY j ∨
      p.totalY ≤ j * p.actualBlockY j + t % p.actualBlockY j then 0
  else (inputAt l val (pos + t + 1)).val

/-- a block is filled from `pos` on -/
theorem fill_eq [Zero V] (p : Plan) (i j pos : ℕ) (data : ℕ → V) :
    fill p i j (p.actualBlockX i) (p.actualBlockY j) (nested (p.actualBlockX i) (p.actualBlockY j))
        (inputAt l val pos, data) =
      (inputAt l val (pos + p.actualBlockX i * p.actualBlockY j),
        fun t => if t < p.actualBlockX i * p.actualBlockY j then content p l val pos i j t else data t) := by
  rw [fill, nested_eq_map, List.foldl_map]
  generalize p.actualBlockX i * p.actualBlockY j = n
  induction n with
  | zero =>
    refine Prod.ext rfl (funext fun t => ?_)
    show data t = if t < 0 then content p l val pos i j t else data t
    rw [if_neg (Nat.not_lt_zero t)]
  | succ n ih =>
    rw [List.range_succ, List.foldl_append, ih]
    refine Prod.ext next_inputAt (funext fun t => ?_)
    show Function.update (fun t => if t < n then content p l val pos i j t else data t)
      (n / p.actualBlockY j * p.actualBlockY j + n % p.actualBlockY j)
      (if p.totalX ≤ i * p.actualBlockX i + n / p.actualBlockY j ∨
        p.totalY ≤ j * p.actualBlockY j + n % p.actualBlockY j then 0
        else (inputAt l val (pos + n)).next.val) t =
      if t < n + 1 then content p l val pos i j t else data t
    rw [Nat.div_add_mod', next_inputAt, Function.update_apply]
    by_cases ht : t = n
    · rw [if_pos ht, if_pos (show t < n + 1 by omega), ht]
      rfl
    · rw [if_neg ht]
      by_cases hlt : t < n
      · rw [if_pos hlt, if_pos (by omega)]
      · rw [if_neg hlt, if_neg (by omega)]

end

/-! ## What is sent -/

section
variable [Zero V] {p : Plan} {makeFaults appendFaults : ℕ → ℕ} {l : List V} {val : V} {s s' : State V}

/-- block number `k`, that begins at number `pos` of the file; one that could not be appended at once is made
again, and not filled again -/
def block (p : Plan) (appendFaults : ℕ → ℕ) (l : List V) (val : V) (k pos : ℕ) (c : ℕ × ℕ) : Block V :=
  ⟨c.1, c.2, p.actualBlockX c.1, p.actualBlockY c.2, p.totalX, p.totalY, fun t =>
    if appendFaults k = 0 ∧ t < p.actualBlockX c.1 * p.actualBlockY c.2 then
      content p l val pos c.1 c.2 t
    else 0⟩

/-- the numbers that are read for a block -/
def blockSize (p : Plan) (c : ℕ × ℕ) : ℕ := p.actualBlockX c.1 * p.actualBlockY c.2

/-- all blocks of `todo` -/
def blocks (p : Plan) (appendFaults : ℕ → ℕ) (l : List V) (val : V) :
    (k pos : ℕ) → List (ℕ × ℕ) → List (Block V)
  | _, _, [] => []
  | k, pos, c :: todo =>
    block p appendFaults l val k pos c :: blocks p appendFaults l val (k + 1) (pos + blockSize p c) todo

/-- before the next block: it is to be filled, or has been filled once and could not be appended -/
def Ready (p : Plan) (appendFaults : ℕ → ℕ) (l : List V) (val : V) (pos : ℕ) (s : State V) : Prop :=
  s.ii = 0 ∧ s.input = inputAt l val pos ∧ s.appends.failed = 0 ∨
    ∃ c todo, s.todo = c :: todo ∧ s.ii = p.actualBlockX c.1 ∧
      s.input = inputAt l val (pos + blockSize p c) ∧ 0 < s.appends.failed ∧
      s.appends.failed ≤ appendFaults s.appends.made

/-- what has been sent, and is to be sent -/
def Inv (p : Plan) (appendFaults : ℕ → ℕ) (l : List V) (val : V) (s : State V) : Prop :=
  ∃ pos, blocks p appendFaults l val 0 0 (nested p.numXBlocks p.numYBlocks) =
      s.sent ++ s.storeMatrix ++ blocks p appendFaults l val s.appends.made pos s.todo ∧
    Ready p appendFaults l val pos s

/-- a turn of the loop -/
theorem step_cases (h : step p makeFaults appendFaults s = some s') : ∃ c todo, s.todo = c :: todo ∧
    (s' = { s with makes := s.makes.fail }.dispatch ∨
      ∃ filled, filled = fill p c.1 c.2 (p.actualBlockX c.1) (p.actualBlockY c.2)
          (List.range' s.ii (p.actualBlockX c.1 - s.ii) ×ˢ List.range (p.actualBlockY c.2))
          (s.input, fun _ => 0) ∧
        (s.appends.Fails appendFaults ∧ s' = { s with
            makes := s.makes.succeed, input := filled.1, ii := max s.ii (p.actualBlockX c.1)
            appends := s.appends.fail }.dispatch ∨
          ¬ s.appends.Fails appendFaults ∧ s' = { s with
            makes := s.makes.succeed, input := filled.1, ii := 0, appends := s.appends.succeed
            storeMatrix := s.storeMatrix ++
              [⟨c.1, c.2, p.actualBlockX c.1, p.actualBlockY c.2, p.totalX, p.totalY, filled.2⟩]
            todo })) := by
  rw [step] at h
  split at h
  · cases h
  · next i j todo htodo =>
    refine ⟨(i, j), todo, htodo, ?_⟩
    dsimp only at h
    split at h
    · cases h
    · split at h
      · exact .inl (Option.some.inj h).symm
      · split at h
        · cases h
        · refine .inr ⟨_, rfl, ?_⟩
          split at h
          · next hf => exact .inl ⟨hf, (Option.some.inj h).symm⟩
          · next hf => exact .inr ⟨hf, (Option.some.inj h).symm⟩

theorem inv_step (hs : Inv p appendFaults l val s) (h : step p makeFaults appendFaults s = some s') :
    Inv p appendFaults l val s' := by
  obtain ⟨pos, hblocks, hready⟩ := hs
  obtain ⟨⟨i, j⟩, todo, htodo, hcase⟩ := step_cases h
  rcases hcase with rfl | ⟨filled, hfilled, hcase⟩
  · -- the block could not be made
    refine ⟨pos, ?_, hready⟩
    rw [hblocks]
    show _ = (s.sent ++ s.storeMatrix) ++ [] ++ _
    rw [List.append_nil]
    rfl
  · -- what the block contains
    have hall : max s.ii (p.actualBlockX i) = p.actualBlockX i ∧
        filled.1 = inputAt l val (pos + blockSize p (i, j)) ∧ filled.2 = fun t =>
          if s.appends.failed = 0 ∧ t < p.actualBlockX i * p.actualBlockY j then
            content p l val pos i j t else 0 := by
      rcases hready with ⟨hii, hinput, hfailed⟩ | ⟨c, todo', htodo', hii, hinput, hpos, -⟩
      · rw [hii, hinput, Nat.sub_zero, ← List.range_eq_range'] at hfilled
        have heq := hfilled.trans (fill_eq p i j pos fun _ => 0)
        rw [heq]
        refine ⟨by omega, rfl, funext fun t => ?_⟩
        by_cases ht : t < p.actualBlockX i * p.actualBlockY j
        · rw [if_pos ⟨hfailed, ht⟩]
          exact if_pos ht
        · rw [if_neg fun h => ht h.2]
          exact if_neg ht
      · cases htodo.symm.trans htodo'
        change s.ii = p.actualBlockX i at hii
        rw [hii, Nat.sub_self, hinput] at hfilled
        have heq : filled = (inputAt l val (pos + blockSize p (i, j)), fun _ => 0) := hfilled
        rw [heq]
        refine ⟨by omega, rfl, funext fun t => ?_⟩
        rw [if_neg fun h => hpos.ne' h.1]
    obtain ⟨hii, hinput, hdata⟩ := hall
    rcases hcase with ⟨hfails, rfl⟩ | ⟨hfails, rfl⟩
    · refine ⟨pos, ?_, .inr ⟨(i, j), todo, htodo, hii, hinput, Nat.succ_pos _, hfails⟩⟩
      rw [hblocks]
      show _ = (s.sent ++ s.storeMatrix) ++ [] ++ _
      rw [List.append_nil]
      rfl
    · -- it failed as often as it had to
      have hfailed : s.appends.failed = 0 ↔ appendFaults s.appends.made = 0 := by
        have hnot : ¬ s.appends.failed < appendFaults s.appends.made := hfails
        rcases hready with ⟨-, -, h0⟩ | ⟨-, -, -, -, -, hpos, hle⟩ <;> omega
      refine ⟨pos + blockSize p (i, j), ?_, .inl ⟨rfl, hinput, rfl⟩⟩
      rw [hblocks, htodo, blocks]
      show _ = s.sent ++ (s.storeMatrix ++ [_]) ++ _
      rw [hdata, ← List.append_assoc, List.append_assoc _ [_]]
      refine congrArg (s.sent ++ s.storeMatrix ++ ·) (congrArg (· :: _) ?_)
      rw [block]
      simp only [hfailed]

/-- all that is sent -/
theorem sent_eq {file : ℕ → V} (h : Steps (step p makeFaults appendFaults) (start p file val) s)
    (hdone : s.todo = []) : s.sent ++ s.storeMatrix =
      blocks p appendFaults ((List.range (p.totalX * p.totalY)).map file) val 0 0
        (nested p.numXBlocks p.numYBlocks) := by
  obtain ⟨pos, hblocks, -⟩ := h.inv (P := Inv p appendFaults
    ((List.range (p.totalX * p.totalY)).map file) val)
    ⟨0, (List.nil_append _).symm, .inl ⟨rfl, rfl, rfl⟩⟩ fun s t hs ht => inv_step hs ht
  rw [hdone, blocks, List.append_nil] at hblocks
  exact hblocks.symm

/-! ## The loader ends -/

theorem row_lt {i ii : ℕ} (hi : i * p.blockX < p.totalX) (hii : ii < p.actualBlockX i)
    (hpad : p.dontPadX = true) : i * p.actualBlockX i + ii < p.totalX ∧ i * p.blockX + ii < p.totalX := by
  rw [Plan.actualBlockX, if_pos hpad] at hii ⊢
  have hle := Nat.mul_le_mul_left i (Nat.min_le_left p.blockX (p.totalX - i * p.blockX))
  omega

theorem col_lt {j jj : ℕ} (hj : j * p.blockY < p.totalY) (hjj : jj < p.actualBlockY j)
    (hpad : p.dontPadY = true) : j * p.actualBlockY j + jj < p.totalY ∧ j * p.blockY + jj < p.totalY := by
  rw [Plan.actualBlockY, if_pos hpad] at hjj ⊢
  have hle := Nat.mul_le_mul_left j (Nat.min_le_left p.blockY (p.totalY - j * p.blockY))
  omega

/-- fewer blocks, or fewer failures to come -/
def left (makeFaults appendFaults : ℕ → ℕ) (s : State V) : ℕ × ℕ × ℕ :=
  (s.todo.length, s.appends.left appendFaults, s.makes.left makeFaults)

/-- a block of the grid -/
theorem step_some (makeFaults appendFaults : ℕ → ℕ) {c : ℕ × ℕ} {todo : List (ℕ × ℕ)} (hc : s.todo = c :: todo)
    (hx : c.1 * p.blockX < p.totalX) (hy : c.2 * p.blockY < p.totalY) :
    ∃ t, step p makeFaults appendFaults s = some t ∧ (t.todo = s.todo ∨ t.todo = todo) ∧
      Prod.Lex (· < ·) (Prod.Lex (· < ·) (· < ·)) (left makeFaults appendFaults t)
        (left makeFaults appendFaults s) := by
  obtain ⟨i, j⟩ := c
  obtain ⟨todo', ii, input, makes, appends, store, sent⟩ := s
  cases hc
  rw [step]
  dsimp only at hx hy ⊢
  rw [if_neg (by omega)]
  split
  · next hf => exact ⟨_, rfl, .inl rfl, Prod.Lex.right _ (Prod.Lex.right _ (Attempts.left_fail hf))⟩
  · rw [if_neg]
    · split
      · next hf => exact ⟨_, rfl, .inl rfl, Prod.Lex.right _ (Prod.Lex.left _ _ (Attempts.left_fail hf))⟩
      · exact ⟨_, rfl, .inr rfl, Prod.Lex.left _ _ (Nat.lt_succ_self _)⟩
    · rintro ⟨c, hcell, hhere⟩
      obtain ⟨hrow, hcol⟩ := List.mem_product.mp hcell
      have hrow := List.mem_range'_1.mp hrow
      have hcol := List.mem_range.mp hcol
      rcases hhere with ⟨hpad, hle⟩ | ⟨hpad, hle⟩
      · have hin : c.1 < p.actualBlockX i := by omega
        have := (row_lt hx hin hpad).1
        omega
      · have := (col_lt hy hcol hpad).1
        omega

theorem exists_end (makeFaults appendFaults : ℕ → ℕ) (hgrid : ∀ c ∈ nested p.numXBlocks p.numYBlocks,
      c.1 * p.blockX < p.totalX ∧ c.2 * p.blockY < p.totalY) (file : ℕ → V) (val : V) :
    ∃ s, Steps (step p makeFaults appendFaults) (start p file val) s ∧ s.todo = [] := by
  have hwf : WellFounded (Prod.Lex (· < ·) (Prod.Lex (· < ·) (· < ·)) : ℕ × ℕ × ℕ → ℕ × ℕ × ℕ → Prop) :=
    WellFounded.prod_lex Nat.lt_wfRel.wf (WellFounded.prod_lex Nat.lt_wfRel.wf Nat.lt_wfRel.wf)
  obtain ⟨s, hsteps, hdone, -⟩ := Steps.exists_done hwf (left (V := V) makeFaults appendFaults)
    (fun s => ∀ c ∈ s.todo, c ∈ nested p.numXBlocks p.numYBlocks) (fun s => s.todo = []) (fun s hs hd => by
      obtain ⟨c, todo, hc⟩ := List.exists_cons_of_ne_nil hd
      obtain ⟨hx, hy⟩ := hgrid c (hs c (hc ▸ List.mem_cons_self))
      obtain ⟨t, ht, htodo, hlt⟩ := step_some makeFaults appendFaults hc hx hy
      refine ⟨t, ht, fun c' hc' => ?_, hlt⟩
      rcases htodo with heq | heq
      · exact hs c' (heq ▸ hc')
      · rw [heq] at hc'
        exact hs c' (hc ▸ List.mem_cons_of_mem c hc')) (show ∀ c ∈ (start p file val).todo, _ from
    fun c hc => hc)
  exact ⟨s, hsteps, hdone⟩

/-! ## Where the blocks begin -/

/-- number `t` of the file is the first one of block `(i, j)` -/
def blockPos (p : Plan) (i j : ℕ) : ℕ :=
  (∑ a ∈ Finset.range i, p.actualBlockX a) * (∑ b ∈ Finset.range p.numYBlocks, p.actualBlockY b) +
    p.actualBlockX i * ∑ b ∈ Finset.range j, p.actualBlockY b

theorem blocks_append (k pos : ℕ) (todo todo' : List (ℕ × ℕ)) :
    blocks p appendFaults l val k pos (todo ++ todo') = blocks p appendFaults l val k pos todo ++
      blocks p appendFaults l val (k + todo.length) (pos + (todo.map (blockSize p)).sum) todo' := by
  induction todo generalizing k pos with
  | nil => rfl
  | cons c todo ih =>
    rw [List.cons_append, blocks, blocks, ih, List.length_cons, List.map_cons, List.sum_cons,
      List.cons_append, Nat.add_assoc, Nat.add_assoc, Nat.add_comm 1]

theorem sum_row (i n : ℕ) : (((List.range n).map (Prod.mk i)).map (blockSize p)).sum =
    p.actualBlockX i * ∑ b ∈ Finset.range n, p.actualBlockY b := by
  induction n with
  | zero => rfl
  | succ n ih =>
    rw [List.range_succ, List.map_append, List.map_append, List.sum_append, ih, Finset.sum_range_succ,
      Nat.mul_add]
    rfl

theorem blocks_row (i n k pos : ℕ) :
    blocks p appendFaults l val k pos ((List.range n).map (Prod.mk i)) = (List.range n).map fun j =>
      block p appendFaults l val (k + j)
        (pos + p.actualBlockX i * ∑ b ∈ Finset.range j, p.actualBlockY b) (i, j) := by
  induction n with
  | zero => rfl
  | succ n ih =>
    rw [List.range_succ, List.map_append, blocks_append, ih, sum_row, List.length_map, List.length_range,
      List.map_append]
    rfl

theorem nested_succ (m n : ℕ) : nested (m + 1) n = nested m n ++ (List.range n).map (Prod.mk m) := by
  show (List.range (m + 1)).flatMap _ = (List.range m).flatMap _ ++ _
  rw [List.range_succ, List.flatMap_append, List.flatMap_singleton]

theorem length_nested (m n : ℕ) : (nested m n).length = m * n := by
  rw [nested, List.length_product, List.length_range, List.length_range]

theorem sum_nested (m n : ℕ) : ((nested m n).map (blockSize p)).sum =
    (∑ a ∈ Finset.range m, p.actualBlockX a) * ∑ b ∈ Finset.range n, p.actualBlockY b := by
  induction m with
  | zero =>
    rw [Finset.range_zero, Finset.sum_empty, Nat.zero_mul]
    rfl
  | succ m ih => rw [nested_succ, List.map_append, List.sum_append, ih, sum_row, Finset.sum_range_succ, Nat.add_mul]

/-- each block, with its number and where it begins -/
theorem blocks_eq : blocks p appendFaults l val 0 0 (nested p.numXBlocks p.numYBlocks) =
    (nested p.numXBlocks p.numYBlocks).map fun c =>
      block p appendFaults l val (c.1 * p.numYBlocks + c.2) (blockPos p c.1 c.2) c := by
  generalize p.numXBlocks = m
  induction m with
  | zero => rfl
  | succ m ih =>
    rw [nested_succ, blocks_append, ih, blocks_row, length_nested, sum_nested, List.map_append,
      List.map_map]
    simp only [Nat.zero_add]
    rfl
end

/-! ## The order of the file -/

/-- `ceil` of the float quotients is that of the quotients -/
def Counted (p : Plan) : Prop :=
  p.numXBlocks = ⌈(p.totalX : ℚ) / p.blockX⌉₊ ∧ p.numYBlocks = ⌈(p.totalY : ℚ) / p.blockY⌉₊

/-- the values of a block, and of the blocks of a row, are next to each other in the file.  Two cases are so by
chance: the last value is kept for the reads behind the end of the file. -/
def Straight (p : Plan) : Prop :=
  if p.totalY ≤ p.blockY then
    p.dontPadY = true ∨ p.blockY = p.totalY ∨ p.totalX = 1 ∨ p.totalX = 2 ∧ p.totalY = 1
  else
    (p.blockX = 1 ∨ p.dontPadX = true ∧ p.totalX = 1) ∧
        (p.dontPadY = true ∨ p.blockY ∣ p.totalY ∨ p.totalX = 1) ∨
      p.totalX = 1 ∧ p.totalY = p.blockY + 1

instance (p : Plan) : Decidable (Straight p) := inferInstanceAs (Decidable (ite _ _ _))

/-- each value is read where it is in the file -/
def InOrder (p : Plan) : Prop :=
  ∀ i ii j jj, ii < p.actualBlockX i → jj < p.actualBlockY j →
    i * p.blockX + ii < p.totalX → j * p.blockY + jj < p.totalY →
      min (blockPos p i j + (ii * p.actualBlockY j + jj)) (p.totalX * p.totalY - 1) =
        (i * p.blockX + ii) * p.totalY + (j * p.blockY + jj)

section
variable {p : Plan} {i j : ℕ}

theorem lt_ceil {a b i : ℕ} (hb : 0 < b) : i < ⌈(a : ℚ) / b⌉₊ ↔ i * b < a := by
  have hb : (0 : ℚ) < b := by exact_mod_cast hb
  rw [Nat.lt_ceil, lt_div_iff₀ hb]
  exact_mod_cast Iff.rfl

theorem Counted.row (h : Counted p) : i < p.numXBlocks ↔ i * p.blockX < p.totalX := by
  rw [h.1, lt_ceil p.blockX_pos]

theorem Counted.col (h : Counted p) : j < p.numYBlocks ↔ j * p.blockY < p.totalY := by
  rw [h.2, lt_ceil p.blockY_pos]

theorem sum_rows (hi : i * p.blockX < p.totalX) :
    ∑ a ∈ Finset.range i, p.actualBlockX a = i * p.blockX := by
  induction i with
  | zero => rw [Finset.range_zero, Finset.sum_empty, Nat.zero_mul]
  | succ i ih =>
    rw [Nat.succ_mul] at hi ⊢
    rw [Finset.sum_range_succ, ih (by omega), Plan.actualBlockX]
    split <;> omega

theorem sum_cols (hj : j * p.blockY < p.totalY) :
    ∑ b ∈ Finset.range j, p.actualBlockY b = j * p.blockY := by
  induction j with
  | zero => rw [Finset.range_zero, Finset.sum_empty, Nat.zero_mul]
  | succ j ih =>
    rw [Nat.succ_mul] at hj ⊢
    rw [Finset.sum_range_succ, ih (by omega), Plan.actualBlockY]
    split <;> omega

/-- the columns of all blocks -/
def width (p : Plan) : ℕ := if p.dontPadY then p.totalY else p.numYBlocks * p.blockY

theorem sum_width (h : Counted p) (hY : 0 < p.totalY) :
    ∑ b ∈ Finset.range p.numYBlocks, p.actualBlockY b = width p := by
  obtain ⟨n, hn⟩ : ∃ n, p.numYBlocks = n + 1 := by
    have hpos : 0 < p.numYBlocks := h.col.mpr (by omega)
    exact ⟨p.numYBlocks - 1, by omega⟩
  have hin : n * p.blockY < p.totalY := h.col.mp (by omega)
  have hout : ¬ (n + 1) * p.blockY < p.totalY := fun hlt => by
    have := h.col.mpr hlt
    omega
  rw [Nat.succ_mul] at hout
  rw [width, hn, Finset.sum_range_succ, sum_cols hin, Plan.actualBlockY, Nat.succ_mul]
  split <;> omega

theorem blockPos_eq (h : Counted p) (hi : i * p.blockX < p.totalX) (hj : j * p.blockY < p.totalY) :
    blockPos p i j = i * p.blockX * width p + p.actualBlockX i * (j * p.blockY) := by
  rw [blockPos, sum_rows hi, sum_cols hj, sum_width h (by omega)]

/-- the number of a value of the matrix is one of the file -/
theorem index_lt {r c : ℕ} (hr : r < p.totalX) (hc : c < p.totalY) :
    r * p.totalY + c ≤ p.totalX * p.totalY - 1 := by
  have := Nat.mul_le_mul_right p.totalY (Nat.succ_le_of_lt hr)
  rw [Nat.succ_mul] at this
  omega

theorem width_eq (h : Counted p) (hcase : p.dontPadY = true ∨ p.blockY ∣ p.totalY) :
    width p = p.totalY := by
  unfold width
  split
  · rfl
  · next hpad =>
    obtain ⟨k, hk⟩ := hcase.resolve_left hpad
    have hle : ¬ k < p.numYBlocks := by
      rw [h.col, hk, Nat.mul_comm]
      exact Nat.lt_irrefl _
    have hge : ∀ j < k, j < p.numYBlocks := fun j hj => by
      rw [h.col, hk, Nat.mul_comm]
      exact Nat.mul_lt_mul_of_pos_left hj p.blockY_pos
    have heq : p.numYBlocks = k := by
      refine le_antisymm (Nat.not_lt.mp hle) ?_
      by_contra hlt
      exact Nat.lt_irrefl _ (hge _ (Nat.not_le.mp hlt))
    rw [heq, hk, Nat.mul_comm]

theorem inOrder_of_straight (h : Counted p) (hs : Straight p) : InOrder p := by
  intro i ii j jj hii hjj hr hc
  have hi : i * p.blockX < p.totalX := by omega
  have hj : j * p.blockY < p.totalY := by omega
  have hindex := index_lt hr hc
  rw [blockPos_eq h hi hj]
  unfold Straight at hs
  split at hs
  · next hone =>
    have hj0 : j = 0 := by
      by_contra hne
      have := Nat.le_mul_of_pos_left p.blockY (Nat.pos_of_ne_zero hne)
      omega
    subst hj0
    have hw : width p = p.actualBlockY 0 := by
      rw [← sum_width h (by omega)]
      have hnum : p.numYBlocks = 1 := by
        have h0 : 0 < p.numYBlocks := h.col.mpr hj
        have h1 : ¬ 1 < p.numYBlocks := by
          rw [h.col]
          omega
        omega
      rw [hnum, Finset.sum_range_one]
    rw [hw, Nat.zero_mul, Nat.mul_zero, Nat.add_zero, Nat.zero_add, ← Nat.add_assoc, ← Nat.add_mul]
    rw [Nat.zero_mul, Nat.zero_add] at hindex hc
    rcases hs with hs | hs | hs | ⟨hx, hy⟩
    · have hwidth := width_eq h (.inl hs)
      rw [← hw, hwidth]
      omega
    · have hwidth := width_eq h (.inr (hs ▸ Nat.dvd_refl _))
      rw [← hw, hwidth]
      omega
    · have hrow : i * p.blockX + ii = 0 := by omega
      rw [hrow, Nat.zero_mul, Nat.zero_mul, Nat.zero_add]
      rw [hrow, Nat.zero_mul] at hindex
      omega
    · have hjj0 : jj = 0 := by omega
      have hwpos : 0 < p.actualBlockY 0 := Nat.zero_lt_of_lt hjj
      rw [hx, hy, hjj0]
      rcases (show i * p.blockX + ii = 0 ∨ i * p.blockX + ii = 1 by omega) with hrow | hrow
      · rw [hrow, Nat.zero_mul]
        rfl
      · rw [hrow, Nat.one_mul]
        omega
  · next hmany =>
    rcases hs with ⟨hrow, hs⟩ | ⟨hx, hy⟩
    · have hone : p.actualBlockX i = 1 := by
        have hx := p.blockX_pos
        rw [Plan.actualBlockX] at hii ⊢
        rcases hrow with hrow | ⟨hpad, hrow⟩
        · rw [hrow] at hi ⊢
          split <;> omega
        · rw [if_pos hpad] at hii ⊢
          omega
      have hii0 : ii = 0 := by omega
      rw [hone, hii0, Nat.one_mul, Nat.zero_mul, Nat.zero_add, Nat.add_zero]
      rw [hii0, Nat.add_zero] at hindex
      rcases (show (p.dontPadY = true ∨ p.blockY ∣ p.totalY) ∨ p.totalX = 1 by tauto) with hs | hs
      · rw [width_eq h hs]
        omega
      · have hzero : i * p.blockX = 0 := by omega
        rw [hzero, Nat.zero_mul, Nat.zero_mul, Nat.zero_add, Nat.zero_add]
        rw [hzero, Nat.zero_mul] at hindex
        omega
    · have hzero : i * p.blockX = 0 ∧ ii = 0 := by omega
      have hxpos : 1 ≤ p.actualBlockX i := by omega
      rw [hzero.1, hzero.2, hx, hy]
      simp only [Nat.zero_mul, Nat.zero_add, Nat.one_mul, Nat.add_sub_cancel]
      rcases (show j = 0 ∨ j = 1 ∨ 2 ≤ j by omega) with rfl | rfl | h2
      · rw [Nat.zero_mul, Nat.mul_zero]
        omega
      · have := Nat.mul_le_mul_right p.blockY hxpos
        rw [Nat.one_mul] at *
        omega
      · have := Nat.mul_le_mul_right p.blockY h2
        have hpos := p.blockY_pos
        omega

/-- the height of the block of a row -/
theorem row_in_block {r : ℕ} (hr : r < p.totalX) : r % p.blockX < p.actualBlockX (r / p.blockX) := by
  have hmod := Nat.mod_lt r p.blockX_pos
  have hdiv := Nat.div_add_mod' r p.blockX
  rw [Plan.actualBlockX]
  split <;> omega

theorem straight_of_inOrder (h : Counted p) (hX : 0 < p.totalX) (hY : 0 < p.totalY) (ho : InOrder p) :
    Straight p := by
  have hx := p.blockX_pos
  have hy := p.blockY_pos
  -- the first value of a row
  have hrow : ∀ r < p.totalX, min (r / p.blockX * p.blockX * width p +
      r % p.blockX * p.actualBlockY 0) (p.totalX * p.totalY - 1) = r * p.totalY := by
    intro r hr
    have hdiv := Nat.div_add_mod' r p.blockX
    have hpos : 0 < p.actualBlockY 0 := by
      rw [Plan.actualBlockY]
      split <;> omega
    have := ho (r / p.blockX) (r % p.blockX) 0 0 (row_in_block hr) hpos (by omega) (by omega)
    rw [blockPos_eq h (by omega) (by omega), hdiv] at this
    simp only [Nat.zero_mul, Nat.mul_zero, Nat.add_zero] at this
    exact this
  unfold Straight
  split
  · next hone =>
    by_contra hnot
    rw [not_or, not_or, not_or] at hnot
    obtain ⟨hpad, hne, hX1, hX2⟩ := hnot
    have hnum : p.numYBlocks = 1 := by
      have h0 : 0 < p.numYBlocks := h.col.mpr (by omega)
      have h1 : ¬ 1 < p.numYBlocks := by
        rw [h.col]
        omega
      omega
    have hwidth : width p = p.blockY := by
      rw [width, if_neg hpad, hnum, Nat.one_mul]
    have hfirst : p.actualBlockY 0 = p.blockY := by rw [Plan.actualBlockY, if_neg hpad]
    have hr := hrow 1 (by omega)
    rw [hwidth, hfirst, ← Nat.add_mul, Nat.div_add_mod', Nat.one_mul, Nat.one_mul] at hr
    have hlast : p.totalX * p.totalY = p.totalY + 1 := by omega
    have htwo := Nat.mul_le_mul_right p.totalY (show 2 ≤ p.totalX by omega)
    have hY1 : p.totalY = 1 := by omega
    rw [hY1, Nat.mul_one] at hlast
    exact hX2 ⟨hlast, hY1⟩
  · next hmany =>
    -- the first value of the second block
    have hpos : 0 < p.actualBlockX 0 := by
      rw [Plan.actualBlockX]
      split <;> omega
    have hcol : 0 < p.actualBlockY 1 := by
      rw [Plan.actualBlockY]
      split <;> omega
    have hsecond := ho 0 0 1 0 hpos hcol (by omega) (by omega)
    rw [blockPos_eq h (by omega) (by omega)] at hsecond
    simp only [Nat.zero_mul, Nat.one_mul, Nat.add_zero, Nat.zero_add] at hsecond
    rcases Nat.eq_or_lt_of_le hpos with hone | hmore
    · refine .inl ⟨?_, ?_⟩
      · rw [Plan.actualBlockX] at hone
        split at hone
        · next hpad =>
          by_cases hb : p.blockX = 1
          · exact .inl hb
          · exact .inr ⟨hpad, by omega⟩
        · exact .inl hone.symm
      · by_contra hnot
        rw [not_or, not_or] at hnot
        obtain ⟨hpad, hdvd, hX1⟩ := hnot
        have hb : p.blockX = 1 := by
          rw [Plan.actualBlockX] at hone
          split at hone <;> omega
        have hwidth : p.totalY < width p := by
          rw [width, if_neg hpad]
          refine lt_of_le_of_ne ?_ fun heq => hdvd ⟨p.numYBlocks, by rw [Nat.mul_comm]; exact heq⟩
          by_contra hlt
          exact absurd (h.col.mpr (Nat.not_le.mp hlt)) (Nat.lt_irrefl _)
        have hr := hrow 1 (by omega)
        rw [hb, Nat.div_one, Nat.mod_one, Nat.zero_mul, Nat.add_zero, Nat.one_mul, Nat.one_mul] at hr
        have htwo := Nat.mul_le_mul_right p.totalY (show 2 ≤ p.totalX by omega)
        omega
    · have htwo := Nat.mul_le_mul_right p.blockY (show 2 ≤ p.actualBlockX 0 from hmore)
      have hlast : p.totalX * p.totalY = p.blockY + 1 := by
        have := Nat.mul_pos hX hY
        omega
      have hX1 : p.totalX = 1 := by
        by_contra hne
        have := Nat.mul_le_mul_right p.totalY (show 2 ≤ p.totalX by omega)
        omega
      rw [hX1, Nat.one_mul] at hlast
      exact .inr ⟨hX1, hlast⟩

end

/-! ## When it works -/

/-- there is no value; or the blocks are counted right, each is appended at once, and the file has the order of
the blocks -/
def Fits (p : Plan) (appendFaults : ℕ → ℕ) : Prop :=
  p.totalX = 0 ∨ p.totalY = 0 ∨
    Counted p ∧ (∀ k < p.numXBlocks * p.numYBlocks, appendFaults k = 0) ∧ Straight p

section
variable [Zero V] {p : Plan} {makeFaults appendFaults : ℕ → ℕ} {file : ℕ → V} {val : V}

/-- the blocks that are sent -/
def allBlocks (p : Plan) (appendFaults : ℕ → ℕ) (file : ℕ → V) (val : V) : List (Block V) :=
  (nested p.numXBlocks p.numYBlocks).map fun c =>
    block p appendFaults ((List.range (p.totalX * p.totalY)).map file) val
      (c.1 * p.numYBlocks + c.2) (blockPos p c.1 c.2) c

theorem index_allBlocks : (allBlocks p appendFaults file val).map Block.index =
    nested p.numXBlocks p.numYBlocks := by
  rw [allBlocks, List.map_map]
  exact List.map_id _

theorem mem_allBlocks {b : Block V} (hb : b ∈ allBlocks p appendFaults file val) :
    ∃ i < p.numXBlocks, ∃ j < p.numYBlocks,
      b = block p appendFaults ((List.range (p.totalX * p.totalY)).map file) val
        (i * p.numYBlocks + j) (blockPos p i j) (i, j) := by
  obtain ⟨⟨i, j⟩, hc, rfl⟩ := List.mem_map.mp hb
  obtain ⟨hi, hj⟩ := mem_nested.mp hc
  exact ⟨i, hi, j, hj, rfl⟩

/-- a value that is in the matrix -/
theorem content_eq {i ii j jj : ℕ} (hi : i * p.blockX + ii < p.totalX) (hj : j * p.blockY + jj < p.totalY)
    (hii : ii < p.actualBlockX i) (hjj : jj < p.actualBlockY j) (pos : ℕ) :
    content p ((List.range (p.totalX * p.totalY)).map file) val pos i j (ii * p.actualBlockY j + jj) =
      file (min (pos + (ii * p.actualBlockY j + jj)) (p.totalX * p.totalY - 1)) := by
  have hcell : (ii * p.actualBlockY j + jj) / p.actualBlockY j = ii ∧
      (ii * p.actualBlockY j + jj) % p.actualBlockY j = jj :=
    (Nat.div_mod_unique (Nat.zero_lt_of_lt hjj)).mpr ⟨by rw [Nat.mul_comm, Nat.add_comm], hjj⟩
  have hrow : i * p.actualBlockX i + ii < p.totalX := by
    cases hpad : p.dontPadX with
    | true => exact (row_lt (by omega) hii hpad).1
    | false =>
      rw [Plan.actualBlockX, hpad, if_neg Bool.false_ne_true]
      exact hi
  have hcol : j * p.actualBlockY j + jj < p.totalY := by
    cases hpad : p.dontPadY with
    | true => exact (col_lt (by omega) hjj hpad).1
    | false =>
      rw [Plan.actualBlockY, hpad, if_neg Bool.false_ne_true]
      exact hj
  rw [content, hcell.1, hcell.2, if_neg (by omega),
    val_inputAt (Nat.mul_pos (Nat.zero_lt_of_lt hrow) (Nat.zero_lt_of_lt hcol))]

/-- a value that is not -/
theorem content_padding {i ii j jj : ℕ} (hi : i * p.blockX < p.totalX) (hj : j * p.blockY < p.totalY)
    (hii : ii < p.actualBlockX i) (hjj : jj < p.actualBlockY j)
    (hout : ¬ (i * p.blockX + ii < p.totalX ∧ j * p.blockY + jj < p.totalY)) (l : List V) (pos : ℕ) :
    content p l val pos i j (ii * p.actualBlockY j + jj) = 0 := by
  have hcell : (ii * p.actualBlockY j + jj) / p.actualBlockY j = ii ∧
      (ii * p.actualBlockY j + jj) % p.actualBlockY j = jj :=
    (Nat.div_mod_unique (Nat.zero_lt_of_lt hjj)).mpr ⟨by rw [Nat.mul_comm, Nat.add_comm], hjj⟩
  rw [content, hcell.1, hcell.2, if_pos]
  by_contra hin
  rw [not_or, not_le, not_le] at hin
  refine hout ⟨?_, ?_⟩
  · cases hpad : p.dontPadX with
    | true => exact (row_lt hi hii hpad).2
    | false =>
      have h := hin.1
      rw [Plan.actualBlockX, hpad, if_neg Bool.false_ne_true] at h
      exact h
  · cases hpad : p.dontPadY with
    | true => exact (col_lt hj hjj hpad).2
    | false =>
      have h := hin.2
      rw [Plan.actualBlockY, hpad, if_neg Bool.false_ne_true] at h
      exact h

theorem number_lt {m n i j : ℕ} (hi : i < m) (hj : j < n) : i * n + j < m * n := by
  have := Nat.mul_le_mul_right n (Nat.succ_le_of_lt hi)
  rw [Nat.succ_mul] at this
  omega

theorem right_allBlocks (hc : Counted p) (ha : ∀ k < p.numXBlocks * p.numYBlocks, appendFaults k = 0)
    (ho : InOrder p) : Right p file (allBlocks p appendFaults file val) := by
  refine ⟨?_, fun i j => ?_, fun b hb => ?_, fun b hb ii hii jj hjj => ?_⟩
  · rw [index_allBlocks]
    exact List.nodup_range.product List.nodup_range
  · rw [index_allBlocks, mem_nested, hc.row, hc.col]
  · obtain ⟨i, -, j, -, rfl⟩ := mem_allBlocks hb
    exact ⟨rfl, rfl, rfl, rfl⟩
  · obtain ⟨i, hi, j, hj, rfl⟩ := mem_allBlocks hb
    change ii < p.actualBlockX i at hii
    change jj < p.actualBlockY j at hjj
    show (if appendFaults _ = 0 ∧ ii * p.actualBlockY j + jj < _ then
      content p _ val _ i j (ii * p.actualBlockY j + jj) else 0) =
      if i * p.blockX + ii < p.totalX ∧ j * p.blockY + jj < p.totalY then
        file ((i * p.blockX + ii) * p.totalY + (j * p.blockY + jj)) else 0
    rw [if_pos ⟨ha _ (number_lt hi hj), number_lt hii hjj⟩]
    by_cases hin : i * p.blockX + ii < p.totalX ∧ j * p.blockY + jj < p.totalY
    · rw [if_pos hin, content_eq hin.1 hin.2 hii hjj, ho i ii j jj hii hjj hin.1 hin.2]
    · rw [if_neg hin, content_padding (hc.row.mp hi) (hc.col.mp hj) hii hjj hin]

theorem loads_of_fits (h : Fits p appendFaults) : Loads p V makeFaults appendFaults := by
  intro file val
  rcases h with h | h | ⟨hc, ha, hs⟩
  · have hnone : (start p file val).todo = [] := by
      show nested (Binary32.ceilDiv p.totalX p.blockX) _ = []
      rw [h, Binary32.ceilDiv_zero]
      rfl
    refine ⟨_, .refl, hnone, List.nodup_nil, fun i j => ?_, fun b hb => (nomatch hb),
      fun b hb => nomatch hb⟩
    rw [h]
    exact iff_of_false List.not_mem_nil fun h => Nat.not_lt_zero _ h.1
  · have hnone : (start p file val).todo = [] := by
      refine List.eq_nil_iff_forall_not_mem.mpr fun c hc => ?_
      have hlt : c.2 < Binary32.ceilDiv p.totalY p.blockY := (mem_nested.mp hc).2
      rw [h, Binary32.ceilDiv_zero] at hlt
      exact Nat.not_lt_zero _ hlt
    refine ⟨_, .refl, hnone, List.nodup_nil, fun i j => ?_, fun b hb => (nomatch hb),
      fun b hb => nomatch hb⟩
    rw [h]
    exact iff_of_false List.not_mem_nil fun h => Nat.not_lt_zero _ h.2
  · obtain ⟨s, hsteps, hdone⟩ := exists_end (p := p) makeFaults appendFaults (fun c hin =>
      ⟨hc.row.mp (mem_nested.mp hin).1, hc.col.mp (mem_nested.mp hin).2⟩) file val
    refine ⟨s, hsteps, hdone, ?_⟩
    rw [sent_eq hsteps hdone, blocks_eq]
    exact right_allBlocks hc ha (inOrder_of_straight hc hs)

/-- what is sent is right for every file -/
theorem right_of_loads (h : Loads p V makeFaults appendFaults) (file : ℕ → V) :
    Right p file (allBlocks p appendFaults file 0) := by
  obtain ⟨s, hsteps, hdone, hright⟩ := h file 0
  rw [sent_eq hsteps hdone, blocks_eq] at hright
  exact hright

/-- the value of a position of the matrix -/
theorem value_of_loads (h : Loads p V makeFaults appendFaults) (file : ℕ → V) {i ii j jj : ℕ}
    (hi : i < p.numXBlocks) (hj : j < p.numYBlocks) (hii : ii < p.actualBlockX i)
    (hjj : jj < p.actualBlockY j) (hr : i * p.blockX + ii < p.totalX)
    (hc : j * p.blockY + jj < p.totalY) :
    (if appendFaults (i * p.numYBlocks + j) = 0 then
      file (min (blockPos p i j + (ii * p.actualBlockY j + jj)) (p.totalX * p.totalY - 1)) else 0) =
      file ((i * p.blockX + ii) * p.totalY + (j * p.blockY + jj)) := by
  have hvalue := (right_of_loads h file).values _
    (List.mem_map.mpr ⟨(i, j), mem_nested.mpr ⟨hi, hj⟩, rfl⟩) ii hii jj hjj
  change (if appendFaults (i * p.numYBlocks + j) = 0 ∧
      ii * p.actualBlockY j + jj < p.actualBlockX i * p.actualBlockY j then
    content p ((List.range (p.totalX * p.totalY)).map file) 0 (blockPos p i j) i j
      (ii * p.actualBlockY j + jj) else 0) =
    if i * p.blockX + ii < p.totalX ∧ j * p.blockY + jj < p.totalY then
      file ((i * p.blockX + ii) * p.totalY + (j * p.blockY + jj)) else 0 at hvalue
  rw [content_eq hr hc hii hjj, @if_pos (i * p.blockX + ii < p.totalX ∧ _) _ ⟨hr, hc⟩] at hvalue
  rw [← hvalue]
  by_cases h0 : appendFaults (i * p.numYBlocks + j) = 0
  · rw [if_pos h0, if_pos ⟨h0, number_lt hii hjj⟩]
  · rw [if_neg h0, if_neg fun h => h0 h.1]

theorem fits_of_loads [Nontrivial V] (h : Loads p V makeFaults appendFaults) : Fits p appendFaults := by
  rcases Nat.eq_zero_or_pos p.totalX with hX | hX
  · exact .inl hX
  rcases Nat.eq_zero_or_pos p.totalY with hY | hY
  · exact .inr (.inl hY)
  obtain ⟨w, hw⟩ := exists_ne (0 : V)
  have hgrid := (right_of_loads h fun _ => w).grid
  rw [index_allBlocks] at hgrid
  have hnumX : 0 < p.numXBlocks := Binary32.ceilDiv_pos hX p.blockX_pos
  have hnumY : 0 < p.numYBlocks := Binary32.ceilDiv_pos hY p.blockY_pos
  have hrow : ∀ i, i < p.numXBlocks ↔ i * p.blockX < p.totalX := fun i => by
    have := hgrid i 0
    rw [mem_nested, Nat.zero_mul] at this
    exact ⟨fun hi => (this.mp ⟨hi, hnumY⟩).1, fun hi => (this.mpr ⟨hi, hY⟩).1⟩
  have hcol : ∀ j, j < p.numYBlocks ↔ j * p.blockY < p.totalY := fun j => by
    have := hgrid 0 j
    rw [mem_nested, Nat.zero_mul] at this
    exact ⟨fun hj => (this.mp ⟨hnumX, hj⟩).2, fun hj => (this.mpr ⟨hX, hj⟩).2⟩
  have hc : Counted p := by
    refine ⟨eq_of_forall_lt_iff fun i => ?_, eq_of_forall_lt_iff fun j => ?_⟩
    · rw [hrow, lt_ceil p.blockX_pos]
    · rw [hcol, lt_ceil p.blockY_pos]
  -- a block that is not filled has zeros
  have happend : ∀ k < p.numXBlocks * p.numYBlocks, appendFaults k = 0 := by
    intro k hk
    have hi : k / p.numYBlocks < p.numXBlocks := Nat.div_lt_of_lt_mul (Nat.mul_comm _ _ ▸ hk)
    have hj := Nat.mod_lt k hnumY
    have hi' := (hrow _).mp hi
    have hj' := (hcol _).mp hj
    have hx := p.blockX_pos
    have hy := p.blockY_pos
    have hii : 0 < p.actualBlockX (k / p.numYBlocks) := by
      rw [Plan.actualBlockX]
      split <;> omega
    have hjj : 0 < p.actualBlockY (k % p.numYBlocks) := by
      rw [Plan.actualBlockY]
      split <;> omega
    have hvalue := value_of_loads h (fun _ => w) hi hj hii hjj hi' hj'
    rw [Nat.div_add_mod'] at hvalue
    by_contra hne
    rw [if_neg hne] at hvalue
    exact hw hvalue.symm
  refine .inr (.inr ⟨hc, happend, straight_of_inOrder hc hX hY fun i ii j jj hii hjj hr hcl => ?_⟩)
  -- a file with one value
  have hi : i < p.numXBlocks := (hrow i).mpr (by omega)
  have hj : j < p.numYBlocks := (hcol j).mpr (by omega)
  have hvalue := value_of_loads h
    (fun m => if m = (i * p.blockX + ii) * p.totalY + (j * p.blockY + jj) then w else 0) hi hj hii hjj hr hcl
  rw [if_pos (happend _ (number_lt hi hj)), if_pos rfl] at hvalue
  by_contra hne
  rw [if_neg hne] at hvalue
  exact hw hvalue.symm

/-- **The blocks that are sent are the matrix of the file just where each block can be appended at once, and
the file has the values in the order of the blocks.** -/
theorem loads_iff [Nontrivial V] : Loads p V makeFaults appendFaults ↔ Fits p appendFaults :=
  ⟨fits_of_loads, loads_of_fits⟩

end

/-- a matrix of two blocks side by side -/
def twoColumns : Plan :=
  { totalX := 2, totalY := 2, blockX := 2, blockY := 1, dontPadX := false, dontPadY := false
    blockX_pos := by decide, blockY_pos := by decide }

theorem loads_iff_twoColumns : Loads twoColumns ℤ (fun _ => 0) (fun _ => 0) ↔
    Fits twoColumns fun _ => 0 := loads_iff

/-- the second value of the first row is read to the second row -/
theorem loads_not_always : ¬ ∀ p makeFaults appendFaults, Loads p ℤ makeFaults appendFaults := fun h => by
  rcases fits_of_loads (h twoColumns (fun _ => 0) fun _ => 0) with h | h | ⟨-, -, h⟩
  · exact absurd h (by decide)
  · exact absurd h (by decide)
  · exact absurd h (by decide)

end Netsdb.LoadMatrix
