import Netsdb.Deduplication.Indexer
import Mathlib.Algebra.Order.Ring.Rat
import Mathlib.Data.List.Sort
import Mathlib.Algebra.GroupWithZero.Nat

/-!
# Deduplication of a model: `deduplicator.py`

The blocks of the model are visited by magnitude.  A block that is similar to one of the indexer's is
replaced by it, and the accuracy is evaluated every few steps; a drop ends the loop, and the table is cut
back to the last evaluation.  There is no fine-tuning here.

* `search`              the most similar block of the index;
* `visit`, `loop`       one block, and one after the other until the accuracy drops;
* `deduplicate_model`   the table, and the weights that the model storage and the model are left with;
* `Respects`            what the table and the weights should say of each other;
* `trace`, `Stays`      the weights after each block, and when their accuracy stays near;
* `respects_iff`        the weights are never put back, so all goes well only if nothing is to be undone.

The floats are parameters: which entries are near enough, and what the accuracy of some weights is.
-/

set_option linter.unusedSectionVars false

namespace Netsdb.Deduplicator
open Blocker Indexer

variable {W M A : Type} [Zero W] [LE M] [DecidableLE M] [Sub A] [LinearOrder A]

/-- the LSH index of the list of blocks; a block of another size raises an error -/
structure L2LSH (W : Type) [Zero W] where
  query : Array2 W → Option (List ℕ)
  compute_signatures_for_bands : Array2 W → Option (List String)

/-- the model that an updated one comes from: its storage, and two columns of its table -/
structure Original (W : Type) [Zero W] where
  m_old_ms : List (Stored W)
  df_old : List (Index × Option ℕ)

/-- the arguments; `near x y` is `np.abs(x - y) <= fp` -/
structure Settings (W A : Type) [Zero W] where
  indexer : Indexer W
  near : W → W → Bool
  sim : ℚ
  stop_acc_drop : A
  eval_step : ℤ
  evaluate : List (Weight W) → A
  lsh_indexer : Option (L2LSH W)
  original : Option (Original W)

/-- Where the unpadded part of the block ends, if the block is padded.  With blocks of one entry a bias has
no `shape[1]` to compare with, which raises an error. -/
def paddedBlock (shape : Shape) (size_x size_y : ℕ) (b : Index) : Option (Option (ℕ × ℕ)) :=
  let (_, x, y) := b
  match shape with
  | .one n =>
    if size_x * size_y > 1 then some (some (min ((x + 1) * size_x) n - x * size_x, 1 - y * size_y)) else none
  | .two nx ny =>
    if (x + 1) * size_x > nx ∨ (y + 1) * size_y > ny then
      some (some (min ((x + 1) * size_x) nx - x * size_x, min ((y + 1) * size_y) ny - y * size_y))
    else some none

/-- the blocks of the index to compare with, and `is_updated_block` -/
def candidates (cfg : Settings W A) (b : Index) (b1 : Array2 W) : Option (List ℕ × Bool) :=
  let query_result : Option (List ℕ) :=
    match cfg.lsh_indexer with
    | some lsh => lsh.query b1
    | none => some (List.range cfg.indexer.num_total)
  match cfg.original with
  | none => query_result.map fun q => (q, true)
  | some original => do
    let b1_old ← retrieve_block original.m_old_ms cfg.indexer.block_size_x cfg.indexer.block_size_y b
    let lsh ← cfg.lsh_indexer
    let b1_sigs ← lsh.compute_signatures_for_bands b1
    let b1_old_sigs ← lsh.compute_signatures_for_bands b1_old
    let collide_match := (b1_sigs.zip b1_old_sigs).countP fun sigs => sigs.1 == sigs.2
    if collide_match > 0 then
      match original.df_old.find? (·.1 == b) with
      | some (_, some d) => some ([d], false)
      | _ => query_result.map fun q => (q, true)
    else query_result.map fun q => (q, true)

/-- the share of near entries among the first `nx` rows and `ny` columns -/
def similarity (near : W → W → Bool) (b1 b2 : Array2 W) (nx ny : ℕ) : ℚ :=
  let hits := ((List.range nx).map fun i => (List.range ny).countP fun j => near (b1.get i j) (b2.get i j)).sum
  (hits : ℚ) / ((nx * ny : ℕ) : ℚ)

/-- the loop over the candidates; the test that `b1_index == b2_index` compares a triple with a number, and
never holds -/
def mostSimilar (cfg : Settings W A) (b1 : Array2 W) (nx ny : ℕ) :
    List ℕ → ℚ × Option (ℕ × Array2 W) → Option (ℚ × Option (ℕ × Array2 W))
  | [], s => some s
  | b2_index :: query_result, (max_sim, max_b2) => do
    let b2 ← cfg.indexer.list_blocks[b2_index]?
    let block_sim := similarity cfg.near b1 b2 nx ny
    if block_sim > max_sim ∧ block_sim ≥ cfg.sim then
      mostSimilar cfg b1 nx ny query_result (block_sim, some (b2_index, b2))
    else mostSimilar cfg b1 nx ny query_result (max_sim, max_b2)

/-- what the search for a block gives; `has_dedup` is that there is a most similar block -/
structure Found (W : Type) [Zero W] where
  is_padded_block : Bool
  max_sim : ℚ
  max_b2 : Option (ℕ × Array2 W)
  is_updated_block : Bool

/-- A weight of one block only is not deduplicated. -/
def search (cfg : Settings W A) (ms : List (Stored W)) (b : Index) : Option (Found W) := do
  let s ← ms[b.1]?
  let padded ← paddedBlock s.weights_shape cfg.indexer.block_size_x cfg.indexer.block_size_y b
  if s.weights_block_num.1 * s.weights_block_num.2 > 1 then do
    let b1 := block s.weights_padded cfg.indexer.block_size_x cfg.indexer.block_size_y b.2.1 b.2.2
    let (query_result, is_updated_block) ← candidates cfg b b1
    let (nx, ny) := padded.getD (cfg.indexer.block_size_x, cfg.indexer.block_size_y)
    let (max_sim, max_b2) ← mostSimilar cfg b1 nx ny query_result (0, none)
    some ⟨padded.isSome, max_sim, max_b2, is_updated_block⟩
  else some ⟨padded.isSome, 0, none, true⟩

/-- the weights with the block replaced, and the steps so far -/
def replaceBest (cfg : Settings W A) (ms : List (Stored W)) (step : ℤ) (b : Index) :
    Option (Found W × List (Stored W) × ℤ) := do
  let found ← search cfg ms b
  match found.max_b2 with
  | none => some (found, ms, step)
  | some (_, max_b2) => do
    let ms' ← replace_block ms cfg.indexer.block_size_x cfg.indexer.block_size_y b max_b2
    some (found, ms', if found.is_updated_block then step + 1 else step)

/-- `step % eval_step == 0 and has_dedup` -/
def evaluates (cfg : Settings W A) (found : Found W) (step : ℤ) : Bool :=
  decide (step % cfg.eval_step = 0) && found.max_b2.isSome

structure State (W M A : Type) [Zero W] where
  weights_padded : List (Stored W)
  model : List (Weight W)
  rows : List (Row M A)
  step : ℤ
  last_eval_step : ℕ

/-- `list_acc[-1]`, or the original accuracy if the list is empty -/
def lastAcc (ori_acc : A) (rows : List (Row M A)) : A :=
  (rows.getLast?.bind Row.model_accuracy).getD ori_acc

/-- An `eval_step` of zero divides by zero. -/
def visit (cfg : Settings W A) (ori_acc : A) (b : Index × M) (s : State W M A) : Option (State W M A) := do
  let (found, weights_padded, step) ← replaceBest cfg s.weights_padded s.step b.1
  if cfg.eval_step = 0 then none
  else
    let model := if found.max_b2.isSome then reconstruct_weight_2d weights_padded else s.model
    let evaluated := evaluates cfg found step
    let acc := if evaluated then cfg.evaluate model else lastAcc ori_acc s.rows
    some
      { weights_padded := weights_padded
        model := model
        rows := s.rows ++ [⟨b.1, found.max_b2.map Prod.fst, some found.max_sim, some acc,
          some found.is_padded_block, found.max_b2.isSome, some b.2⟩]
        step := if evaluated then step + 1 else step
        last_eval_step := if evaluated then s.rows.length + 1 else s.last_eval_step }

def loop (cfg : Settings W A) (ori_acc : A) : List (Index × M) → State W M A → Option (State W M A)
  | [], s => some s
  | b :: blocks, s => do
    let s' ← visit cfg ori_acc b s
    if ori_acc - lastAcc ori_acc s'.rows > cfg.stop_acc_drop then some s' else loop cfg ori_acc blocks s'

/-- `list_acc[-1] = acc`; an empty list raises an error -/
def setLastAcc (acc : A) : List (Row M A) → Option (List (Row M A))
  | [] => none
  | [row] => some [{ row with model_accuracy := some acc }]
  | row :: rows => (setLastAcc acc rows).map (row :: ·)

/-- the blocks that are not in the table -/
def addRemaining : List Index → List (Row M A) → List (Row M A)
  | [], rows => rows
  | b :: blocks, rows =>
    if b ∈ rows.map Row.duplicate_block_idx then addRemaining blocks rows
    else addRemaining blocks (rows ++ [⟨b, none, none, none, none, false, none⟩])

/-- after the final evaluation: the table is cut back to the last evaluation, or its last accuracy is set -/
def finalRows (cfg : Settings W A) (ori_acc acc : A) (s : State W M A) : Option (List (Row M A)) :=
  if ori_acc - acc > cfg.stop_acc_drop then some (s.rows.take s.last_eval_step) else setLastAcc acc s.rows

def deduplicate_model (cfg : Settings W A) (model : List (Weight W)) (ms : ModelStorage W M) :
    Option (List (Row M A) × List (Stored W) × List (Weight W)) := do
  let ori_acc := cfg.evaluate model
  let s ← loop cfg ori_acc (ms.block_magnitude.insertionSort fun x y => x.2 ≤ y.2) ⟨ms.weights, model, [], 1, 0⟩
  let rows ← finalRows cfg ori_acc (cfg.evaluate s.model) s
  some (addRemaining (indicesFrom 0 (s.weights_padded.map Stored.weights_block_num)) rows,
    s.weights_padded, s.model)

/-! ## what the table says -/

/-- the deduplications of a table, in its order -/
def applyTable (list_blocks : List (Array2 W)) (size_x size_y : ℕ) :
    List (Row M A) → List (Stored W) → Option (List (Stored W))
  | [], ms => some ms
  | row :: rows, ms =>
    if row.is_deduplicated then do
      let d ← row.deduplicate_block_idx
      let b2 ← list_blocks[d]?
      let ms' ← replace_block ms size_x size_y row.duplicate_block_idx b2
      applyTable list_blocks size_x size_y rows ms'
    else applyTable list_blocks size_x size_y rows ms

/-- the accuracy of these weights is below that of the model by at most `stop_acc_drop` -/
def Near (cfg : Settings W A) (model : List (Weight W)) (ms : List (Stored W)) : Prop :=
  cfg.evaluate model - cfg.evaluate (reconstruct_weight_2d ms) ≤ cfg.stop_acc_drop

/-- the table tells how the weights came from the original ones, and the accuracy is in its bound -/
structure Respects (cfg : Settings W A) (model : List (Weight W)) (ms : List (Stored W))
    (table : List (Row M A)) (ms' : List (Stored W)) : Prop where
  applied : applyTable cfg.indexer.list_blocks cfg.indexer.block_size_x cfg.indexer.block_size_y table ms = some ms'
  kept : ∀ b, IsBlock ms b → ¬ Deduplicates table b →
    retrieve_block ms' cfg.indexer.block_size_x cfg.indexer.block_size_y b =
      retrieve_block ms cfg.indexer.block_size_x cfg.indexer.block_size_y b
  near : Near cfg model ms'

/-- the weights after each block, and whether they are evaluated, if nothing ends the loop -/
def trace (cfg : Settings W A) : List Index → ℤ → List (Stored W) → List (List (Stored W) × Bool)
  | [], _, _ => []
  | b :: blocks, step, ms =>
    match replaceBest cfg ms step b with
    | none => []
    | some (found, ms', step') =>
      let evaluated := evaluates cfg found step'
      (ms', evaluated) :: trace cfg blocks (if evaluated then step' + 1 else step') ms'

/-- the blocks in the order of their magnitudes -/
def order (ms : ModelStorage W M) : List Index :=
  (ms.block_magnitude.insertionSort fun x y => x.2 ≤ y.2).map Prod.fst

/-- Nothing is to be undone: the accuracy is near whenever it is evaluated, and at the end.  If
`stop_acc_drop` is negative, the loop ends at the first block, unless it is evaluated. -/
def Stays (cfg : Settings W A) (model : List (Weight W)) (ms : ModelStorage W M) : Prop :=
  let states := trace cfg (order ms) 1 ms.weights
  ((Near cfg model ms.weights ∨ ∃ w, states.head? = some (w, true)) ∧
    (∀ x ∈ states, x.2 = true → Near cfg model x.1) ∧ ∀ x ∈ states.getLast?, Near cfg model x.1) ∨
  (¬ Near cfg model ms.weights ∧ ∃ w, states.head? = some (w, false) ∧ Near cfg model w)

/-! ## one block -/

section
variable {cfg : Settings W A} {model : List (Weight W)} {ms ms' : List (Stored W)} {b c : Index}
  {step step' : ℤ} {found : Found W} {rows table : List (Row M A)} {ori_acc acc : A} {blocks : List (Index × M)}
  {s s' e : State W M A} {row : Row M A} {x : Index × M}

/-- the most similar block is one of the index -/
theorem mostSimilar_mem {b1 : Array2 W} {nx ny : ℕ} {query_result : List ℕ} {r r' : ℚ × Option (ℕ × Array2 W)}
    (hrun : mostSimilar cfg b1 nx ny query_result r = some r')
    (hr : ∀ y ∈ r.2, cfg.indexer.list_blocks[y.1]? = some y.2) :
    ∀ y ∈ r'.2, cfg.indexer.list_blocks[y.1]? = some y.2 := by
  induction query_result generalizing r with
  | nil =>
    obtain rfl := Option.some.inj hrun
    exact hr
  | cons q query_result ih =>
    obtain ⟨b2, hb2, hrun⟩ := Option.bind_eq_some_iff.mp hrun
    dsimp only at hrun
    split at hrun
    · refine ih hrun fun y hy => ?_
      obtain rfl := Option.some.inj hy
      exact hb2
    · exact ih hrun hr

theorem search_mem (h : search cfg ms b = some found) :
    ∀ y ∈ found.max_b2, cfg.indexer.list_blocks[y.1]? = some y.2 := by
  obtain ⟨st, -, h⟩ := Option.bind_eq_some_iff.mp h
  obtain ⟨padded, -, h⟩ := Option.bind_eq_some_iff.mp h
  split at h
  · obtain ⟨⟨query_result, upd⟩, -, h⟩ := Option.bind_eq_some_iff.mp h
    obtain ⟨⟨max_sim, max_b2⟩, hsim, h⟩ := Option.bind_eq_some_iff.mp h
    obtain rfl := Option.some.inj h
    exact mostSimilar_mem hsim fun y hy => by cases hy
  · obtain rfl := Option.some.inj h
    intro y hy
    cases hy

/-- what one block does to the weights, and the deduplication that says so -/
theorem replaceBest_spec (h : replaceBest cfg ms step b = some (found, ms', step')) :
    (found.max_b2 = none ∧ ms' = ms) ∨ ∃ d b2, found.max_b2 = some (d, b2) ∧
      cfg.indexer.list_blocks[d]? = some b2 ∧
      replace_block ms cfg.indexer.block_size_x cfg.indexer.block_size_y b b2 = some ms' := by
  obtain ⟨f, hf, h⟩ := Option.bind_eq_some_iff.mp h
  have hmem := search_mem hf
  cases hbest : f.max_b2 with
  | none =>
    rw [hbest] at h
    obtain ⟨rfl, hsame⟩ := Prod.mk.inj (Option.some.inj h)
    exact Or.inl ⟨hbest, (Prod.mk.inj hsame).1.symm⟩
  | some y =>
    rw [hbest] at h
    obtain ⟨w, hw, h⟩ := Option.bind_eq_some_iff.mp h
    obtain ⟨rfl, hnew⟩ := Prod.mk.inj (Option.some.inj h)
    obtain ⟨rfl, -⟩ := Prod.mk.inj hnew
    exact Or.inr ⟨y.1, y.2, hbest, hmem y hbest, hw⟩

/-- the row of a visit -/
def visitRow (x : Index × M) (found : Found W) (acc : A) : Row M A :=
  ⟨x.1, found.max_b2.map Prod.fst, some found.max_sim, some acc, some found.is_padded_block,
    found.max_b2.isSome, some x.2⟩

theorem lastAcc_append (h : row.model_accuracy = some acc) : lastAcc ori_acc (rows ++ [row]) = acc := by
  unfold lastAcc
  rw [List.getLast?_concat, Option.bind_some, h]
  rfl

/-- **All that a visit does.** -/
theorem visit_spec (hs : s.model = reconstruct_weight_2d s.weights_padded) (h : visit cfg ori_acc x s = some s') :
    ∃ found step', replaceBest cfg s.weights_padded s.step x.1 = some (found, s'.weights_padded, step') ∧
      s'.model = reconstruct_weight_2d s'.weights_padded ∧
      s'.step = (if evaluates cfg found step' then step' + 1 else step') ∧
      s'.rows = s.rows ++ [visitRow x found (lastAcc ori_acc s'.rows)] ∧
      lastAcc ori_acc s'.rows = (if evaluates cfg found step'
        then cfg.evaluate (reconstruct_weight_2d s'.weights_padded) else lastAcc ori_acc s.rows) := by
  obtain ⟨⟨found, w, step'⟩, hbest, h⟩ := Option.bind_eq_some_iff.mp h
  dsimp only at h
  split at h
  · cases h
  · obtain rfl := Option.some.inj h
    have hmodel : (if found.max_b2.isSome then reconstruct_weight_2d w else s.model) = reconstruct_weight_2d w := by
      rcases replaceBest_spec hbest with ⟨hnone, rfl⟩ | ⟨d, b2, hsome, -, -⟩
      · rw [hnone, hs]
        exact ite_self _
      · rw [hsome]
        rfl
    dsimp only
    rw [hmodel, lastAcc_append rfl]
    exact ⟨found, step', hbest, rfl, rfl, rfl, rfl⟩

/-! ## the table -/

theorem applyTable_append (list_blocks : List (Array2 W)) (size_x size_y : ℕ) (rows rows' : List (Row M A))
    (ms : List (Stored W)) : applyTable list_blocks size_x size_y (rows ++ rows') ms =
      (applyTable list_blocks size_x size_y rows ms).bind (applyTable list_blocks size_x size_y rows') := by
  induction rows generalizing ms with
  | nil => rfl
  | cons row rows ih =>
    rw [List.cons_append, applyTable, applyTable]
    split
    · cases row.deduplicate_block_idx with
      | none => rfl
      | some d =>
        show (list_blocks[d]?.bind fun b2 => _) = Option.bind (list_blocks[d]?.bind fun b2 => _) _
        cases list_blocks[d]? with
        | none => rfl
        | some b2 =>
          show Option.bind (replace_block ms size_x size_y row.duplicate_block_idx b2) _ =
            Option.bind (Option.bind (replace_block ms size_x size_y row.duplicate_block_idx b2) _) _
          cases replace_block ms size_x size_y row.duplicate_block_idx b2 with
          | none => rfl
          | some ms' => exact ih ms'
    · exact ih ms

/-- **A block without a deduplicated row keeps its contents.** -/
theorem applyTable_kept {list_blocks : List (Array2 W)} {size_x size_y : ℕ}
    (h : applyTable list_blocks size_x size_y table ms = some ms') (hb : ¬ Deduplicates table b) :
    retrieve_block ms' size_x size_y b = retrieve_block ms size_x size_y b := by
  induction table generalizing ms with
  | nil =>
    obtain rfl := Option.some.inj h
    rfl
  | cons row table ih =>
    rw [applyTable] at h
    rw [deduplicates_cons, not_or, not_and] at hb
    split at h
    · rename_i hd
      obtain ⟨d, -, h⟩ := Option.bind_eq_some_iff.mp h
      obtain ⟨b2, -, h⟩ := Option.bind_eq_some_iff.mp h
      obtain ⟨w, hw, h⟩ := Option.bind_eq_some_iff.mp h
      exact (ih h hb.2).trans (retrieve_replace hw (Ne.symm (hb.1 hd)))
    · exact ih h hb.2

/-- the row of a visit tells what was done -/
theorem applyTable_visitRow (h : replaceBest cfg ms step x.1 = some (found, ms', step')) :
    applyTable cfg.indexer.list_blocks cfg.indexer.block_size_x cfg.indexer.block_size_y
      [visitRow x found acc] ms = some ms' := by
  rw [applyTable, visitRow]
  rcases replaceBest_spec h with ⟨hnone, rfl⟩ | ⟨d, b2, hsome, hb2, hw⟩
  · rw [hnone]
    rfl
  · rw [hsome]
    show (cfg.indexer.list_blocks[d]?.bind fun b2 => Option.bind (replace_block ms _ _ x.1 b2) _) = some ms'
    rw [hb2, Option.bind_some, hw]
    rfl

theorem chosen_visitRow (h : replaceBest cfg ms step x.1 = some (found, ms', step')) :
    Chosen cfg.indexer [visitRow x found acc] := by
  intro row hrow _ d hd
  obtain rfl := List.mem_singleton.mp hrow
  rcases replaceBest_spec h with ⟨hnone, -⟩ | ⟨d', b2, hsome, hb2, -⟩
  · rw [visitRow, hnone] at hd
    cases hd
  · rw [visitRow, hsome] at hd
    obtain rfl := Option.some.inj hd
    exact (List.getElem?_eq_some_iff.mp hb2).1

/-- what the loop keeps: the model has the weights, and the rows tell where they come from -/
structure Kept (cfg : Settings W A) (ms : List (Stored W)) (s : State W M A) : Prop where
  model : s.model = reconstruct_weight_2d s.weights_padded
  applied : applyTable cfg.indexer.list_blocks cfg.indexer.block_size_x cfg.indexer.block_size_y s.rows ms =
    some s.weights_padded
  chosen : Chosen cfg.indexer s.rows

theorem Kept.visit (hs : Kept cfg ms s) (h : visit cfg ori_acc x s = some s') : Kept cfg ms s' := by
  obtain ⟨found, step', hbest, hmodel, -, hrows, -⟩ := visit_spec hs.model h
  refine ⟨hmodel, ?_, ?_⟩
  · rw [hrows, applyTable_append, hs.applied]
    exact applyTable_visitRow hbest
  · rw [hrows]
    intro row hrow
    rcases List.mem_append.mp hrow with hrow | hrow
    · exact hs.chosen row hrow
    · exact chosen_visitRow hbest row hrow

theorem Kept.loop (hs : Kept cfg ms s) (h : loop cfg ori_acc blocks s = some e) : Kept cfg ms e := by
  induction blocks generalizing s with
  | nil =>
    obtain rfl := Option.some.inj h
    exact hs
  | cons x blocks ih =>
    obtain ⟨s', hvisit, h⟩ := Option.bind_eq_some_iff.mp h
    split at h
    · obtain rfl := Option.some.inj h
      exact hs.visit hvisit
    · exact ih (hs.visit hvisit) h

/-- the rows after the loop: the last accuracy is set, or the rows are cut, and blocks without a
deduplication come in -/
theorem setLastAcc_spec {rows' : List (Row M A)} (h : setLastAcc acc rows = some rows')
    (list_blocks : List (Array2 W)) (size_x size_y : ℕ) (ix : Indexer W) :
    (∀ ms, applyTable list_blocks size_x size_y rows' ms = applyTable list_blocks size_x size_y rows ms) ∧
      (Chosen ix rows → Chosen ix rows') := by
  induction rows generalizing rows' with
  | nil => cases h
  | cons row rows ih =>
    cases rows with
    | nil =>
      obtain rfl := Option.some.inj h
      refine ⟨fun _ => rfl, fun hc r hr hrd d hd => ?_⟩
      obtain rfl := List.mem_singleton.mp hr
      exact hc row List.mem_cons_self hrd d hd
    | cons row2 rows =>
      obtain ⟨rest, hrest, rfl⟩ := Option.map_eq_some_iff.mp h
      obtain ⟨happly, hchosen⟩ := ih hrest
      refine ⟨fun ms => ?_, fun hc r hr => ?_⟩
      · rw [applyTable]
        conv_rhs => rw [applyTable]
        simp only [happly]
      · rcases List.mem_cons.mp hr with rfl | hr
        · exact hc r List.mem_cons_self
        · exact hchosen (fun r hr => hc r (List.mem_cons_of_mem _ hr)) r hr

theorem addRemaining_spec (bs : List Index) (rows : List (Row M A)) :
    ∃ extra, addRemaining bs rows = rows ++ extra ∧ ∀ row ∈ extra, row.is_deduplicated = false := by
  induction bs generalizing rows with
  | nil => exact ⟨[], (List.append_nil rows).symm, fun _ h => by cases h⟩
  | cons b bs ih =>
    rw [addRemaining]
    split
    · exact ih rows
    · obtain ⟨extra, hextra, hno⟩ := ih (rows ++ [⟨b, none, none, none, none, false, none⟩])
      refine ⟨_ :: extra, hextra.trans (List.append_assoc _ _ _), fun row hrow => ?_⟩
      rcases List.mem_cons.mp hrow with rfl | hrow
      · rfl
      · exact hno row hrow

theorem applyTable_none {list_blocks : List (Array2 W)} {size_x size_y : ℕ}
    (h : ∀ row ∈ rows, row.is_deduplicated = false) : applyTable list_blocks size_x size_y rows ms = some ms := by
  induction rows with
  | nil => rfl
  | cons row rows ih =>
    rw [applyTable, h row List.mem_cons_self]
    exact ih fun r hr => h r (List.mem_cons_of_mem _ hr)

/-! ## the accuracy -/

/-- the weights at the end of a trace that starts with `ms` -/
def lastWeights (states : List (List (Stored W) × Bool)) (ms : List (Stored W)) : List (Stored W) :=
  (states.getLast?.map Prod.fst).getD ms

theorem lastWeights_cons (y : List (Stored W) × Bool) (states : List (List (Stored W) × Bool))
    (ms : List (Stored W)) : lastWeights (y :: states) ms = lastWeights states y.1 := by
  unfold lastWeights
  rw [List.getLast?_cons]
  cases states.getLast? <;> rfl

theorem trace_cons {bs : List Index} (h : replaceBest cfg ms step b = some (found, ms', step')) :
    trace cfg (b :: bs) step ms = (ms', evaluates cfg found step') ::
      trace cfg bs (if evaluates cfg found step' then step' + 1 else step') ms' := by
  rw [trace, h]

/-- The check after the first block is of the original accuracy, or of one that was just evaluated; then
the loop ends within the bound if the accuracy is always near. -/
theorem loop_near (hs : s.model = reconstruct_weight_2d s.weights_padded)
    (hpass : ¬ cfg.evaluate model - lastAcc (cfg.evaluate model) s.rows > cfg.stop_acc_drop ∨
      ∃ w, (trace cfg (blocks.map Prod.fst) s.step s.weights_padded).head? = some (w, true))
    (hrun : loop cfg (cfg.evaluate model) blocks s = some e) :
    Near cfg model e.weights_padded ↔
      (∀ x ∈ trace cfg (blocks.map Prod.fst) s.step s.weights_padded, x.2 = true → Near cfg model x.1) ∧
        Near cfg model (lastWeights (trace cfg (blocks.map Prod.fst) s.step s.weights_padded) s.weights_padded) := by
  induction blocks generalizing s with
  | nil =>
    obtain rfl := Option.some.inj hrun
    exact ⟨fun h => ⟨fun _ hx => (by cases hx), h⟩, And.right⟩
  | cons x blocks ih =>
    obtain ⟨s', hvisit, hrun⟩ := Option.bind_eq_some_iff.mp hrun
    obtain ⟨found, step', hbest, hmodel, hstep, -, hacc⟩ := visit_spec hs hvisit
    rw [List.map_cons, trace_cons hbest] at hpass ⊢
    rw [lastWeights_cons, List.forall_mem_cons, ← hstep]
    split at hrun
    · rename_i hfail
      obtain rfl := Option.some.inj hrun
      -- only an accuracy that was just evaluated can be too low
      cases hev : evaluates cfg found step' with
      | false =>
        rw [hacc, hev] at hfail
        rw [hev] at hpass
        obtain ⟨w, hw⟩ := hpass.resolve_left fun h => h hfail
        cases hw
      | true =>
        rw [hacc, hev] at hfail
        have hfar : ¬ Near cfg model s'.weights_padded := not_le.mpr hfail
        exact ⟨fun h => absurd h hfar, fun h => absurd (h.1.1 rfl) hfar⟩
    · rename_i hok
      rw [ih hmodel (Or.inl hok) hrun]
      refine ⟨fun h => ⟨⟨fun hev => ?_, h.1⟩, h.2⟩, fun h => ⟨h.1.2, h.2⟩⟩
      rw [hacc, if_pos hev] at hok
      exact not_lt.mp hok

theorem near_last {states : List (List (Stored W) × Bool)}
    (h : Near cfg model ms ∨ ∃ w, states.head? = some (w, true)) :
    Near cfg model (lastWeights states ms) ↔ ∀ x ∈ states.getLast?, Near cfg model x.1 := by
  unfold lastWeights
  cases hlast : states.getLast? with
  | none =>
    obtain rfl := List.getLast?_eq_none_iff.mp hlast
    refine ⟨fun _ _ hx => (by cases hx), fun _ => h.resolve_right ?_⟩
    rintro ⟨w, hw⟩
    cases hw
  | some y =>
    refine ⟨fun h x hx => ?_, fun h => h y rfl⟩
    obtain rfl := Option.some.inj hx
    exact h

/-- **Where the loop ends**, the accuracy is near if nothing is to be undone. -/
theorem loop_stays {storage : ModelStorage W M} (hmodel : reconstruct_weight_2d storage.weights = model)
    (hrun : loop cfg (cfg.evaluate model) (storage.block_magnitude.insertionSort fun x y => x.2 ≤ y.2)
      ⟨storage.weights, model, [], 1, 0⟩ = some e) :
    Near cfg model e.weights_padded ↔ Stays cfg model storage := by
  have hnear : Near cfg model storage.weights ↔
      ¬ cfg.evaluate model - lastAcc (cfg.evaluate model) ([] : List (Row M A)) > cfg.stop_acc_drop := by
    unfold Near
    rw [hmodel]
    exact not_lt.symm
  unfold Stays order
  generalize (storage.block_magnitude.insertionSort fun x y => x.2 ≤ y.2) = blocks at hrun ⊢
  by_cases hpass : Near cfg model storage.weights ∨
      ∃ w, (trace cfg (blocks.map Prod.fst) 1 storage.weights).head? = some (w, true)
  · have hends := loop_near hmodel.symm (hpass.imp_left hnear.mp) hrun
    rw [near_last hpass] at hends
    refine hends.trans ⟨fun h => Or.inl ⟨hpass, h⟩, fun h => ?_⟩
    rcases h with h | ⟨hfar, w, hw, -⟩
    · exact h.2
    · obtain ⟨w', hw'⟩ := hpass.resolve_left hfar
      cases hw.symm.trans hw'
  · obtain ⟨hfar, hfirst⟩ := not_or.mp hpass
    have hfail := not_not.mp fun h => hfar (hnear.mpr h)
    cases blocks with
    | nil =>
      obtain rfl := Option.some.inj hrun
      refine ⟨fun h => absurd h hfar, fun h => ?_⟩
      rcases h with h | ⟨-, w, hw, -⟩
      · exact absurd h.1 hpass
      · cases hw
    | cons x blocks =>
      obtain ⟨s', hvisit, hrun⟩ := Option.bind_eq_some_iff.mp hrun
      obtain ⟨found, step', hbest, -, -, -, hacc⟩ := visit_spec hmodel.symm hvisit
      rw [List.map_cons, trace_cons hbest] at hfirst ⊢
      cases hev : evaluates cfg found step' with
      | true => exact absurd ⟨_, by rw [hev]; rfl⟩ hfirst
      | false =>
        -- the check of the original accuracy ends the loop
        rw [hev] at hacc
        rw [if_pos (by rw [hacc]; exact hfail)] at hrun
        obtain rfl := Option.some.inj hrun
        refine ⟨fun h => Or.inr ⟨hfar, _, rfl, h⟩, fun h => ?_⟩
        rcases h with h | ⟨-, w, hw, h⟩
        · rcases h.1 with h | ⟨w, hw⟩
          · exact absurd h hfar
          · cases hw
        · obtain rfl := (Prod.mk.inj (Option.some.inj hw)).1
          exact h

/-! ## the run -/

/-- what the returned table and weights are -/
theorem deduplicate_model_spec {storage : ModelStorage W M} {magnitude : Array2 W → Array2 W → M}
    {model' : List (Weight W)}
    (hblock : block_model_2d magnitude model cfg.indexer.block_size_x cfg.indexer.block_size_y = some storage)
    (hrun : deduplicate_model cfg model storage = some (table, ms', model')) :
    Chosen cfg.indexer table ∧ (Near cfg model ms' ↔ Stays cfg model storage) ∧
      (Near cfg model ms' → applyTable cfg.indexer.list_blocks cfg.indexer.block_size_x cfg.indexer.block_size_y
        table storage.weights = some ms') := by
  have hmodel := reconstruct_block_from hblock
  obtain ⟨e, hloop, hrun⟩ := Option.bind_eq_some_iff.mp hrun
  obtain ⟨rows, hrows, hrun⟩ := Option.bind_eq_some_iff.mp hrun
  obtain ⟨rfl, hweights⟩ := Prod.mk.inj (Option.some.inj hrun)
  obtain ⟨rfl, rfl⟩ := Prod.mk.inj hweights
  have hstart : Kept cfg storage.weights
      (⟨storage.weights, model, [], 1, 0⟩ : State W M A) := ⟨hmodel.symm, rfl, fun _ h => by cases h⟩
  have hkept := hstart.loop hloop
  obtain ⟨extra, hextra, hno⟩ :=
    addRemaining_spec (indicesFrom 0 (e.weights_padded.map Stored.weights_block_num)) rows
  rw [hextra]
  refine ⟨?_, loop_stays hmodel hloop, fun hnear => ?_⟩
  · have hchosen : Chosen cfg.indexer rows := by
      unfold finalRows at hrows
      split at hrows
      · obtain rfl := Option.some.inj hrows
        exact fun row hrow => hkept.chosen row (List.mem_of_mem_take hrow)
      · exact (setLastAcc_spec hrows [] 0 0 cfg.indexer).2 hkept.chosen
    intro row hrow hd
    rcases List.mem_append.mp hrow with hrow | hrow
    · exact hchosen row hrow hd
    · rw [hno row hrow] at hd
      cases hd
  · rw [finalRows, if_neg (by rw [hkept.model]; exact not_lt.mpr hnear)] at hrows
    rw [applyTable_append, (setLastAcc_spec hrows _ _ _ cfg.indexer).1, hkept.applied]
    exact applyTable_none hno

/-- the table's deduplications are of blocks of the index -/
theorem deduplicate_model_chosen {storage : ModelStorage W M} {magnitude : Array2 W → Array2 W → M}
    {model' : List (Weight W)}
    (hblock : block_model_2d magnitude model cfg.indexer.block_size_x cfg.indexer.block_size_y = some storage)
    (hrun : deduplicate_model cfg model storage = some (table, ms', model')) : Chosen cfg.indexer table :=
  (deduplicate_model_spec hblock hrun).1

/-- **The table and the weights are right exactly if nothing is to be undone.** -/
theorem respects_iff {storage : ModelStorage W M} {magnitude : Array2 W → Array2 W → M} {model' : List (Weight W)}
    (hblock : block_model_2d magnitude model cfg.indexer.block_size_x cfg.indexer.block_size_y = some storage)
    (hrun : deduplicate_model cfg model storage = some (table, ms', model')) :
    Respects cfg model storage.weights table ms' ↔ Stays cfg model storage := by
  obtain ⟨-, hstays, happlied⟩ := deduplicate_model_spec hblock hrun
  rw [← hstays]
  exact ⟨Respects.near, fun h => ⟨happlied h, fun _ _ hb => applyTable_kept (happlied h) hb, h⟩⟩

end

/-- an index of one block of a zero, which all blocks are similar to -/
def sample (stop_acc_drop : ℤ) : Settings ℤ ℤ where
  indexer := (Indexer.new ℤ 1 1).append (Array2.of 1 1 fun _ _ => 0)
  near _ _ := true
  sim := 1 / 2
  stop_acc_drop := stop_acc_drop
  eval_step := 5
  evaluate
    | [.two a] => if a.get 0 0 = 0 then 0 else 10
    | _ => 0
  lsh_indexer := none
  original := none

/-- two blocks in a row -/
def sampleModel : List (Weight ℤ) := [.two (Array2.of 1 2 fun _ j => j + 1)]

/-- the accuracy drops only in the final evaluation: the table is cut to no deduplication, and the weights
have two -/
theorem respects_not_always : ∃ (storage : ModelStorage ℤ ℕ) (table : List (Row ℕ ℤ))
    (ms' : List (Stored ℤ)) (model' : List (Weight ℤ)),
    block_model_2d (fun _ _ => 0) sampleModel 1 1 = some storage ∧
      deduplicate_model (sample 4) sampleModel storage = some (table, ms', model') ∧
      table.map Row.is_deduplicated = [false, false] ∧
      ¬ Respects (sample 4) sampleModel storage.weights table ms' := by
  refine ⟨_, _, _, _, rfl, by with_unfolding_all rfl, by with_unfolding_all rfl, fun h => ?_⟩
  exact absurd h.near (by unfold Near; with_unfolding_all decide)

/-- the same run with a bound that the accuracy keeps -/
theorem respects_iff_sample : ∃ (storage : ModelStorage ℤ ℕ) (table : List (Row ℕ ℤ))
    (ms' : List (Stored ℤ)) (model' : List (Weight ℤ)),
    deduplicate_model (sample 10) sampleModel storage = some (table, ms', model') ∧
      table.map Row.is_deduplicated = [true, true] ∧
      (Respects (sample 10) sampleModel storage.weights table ms' ↔ Stays (sample 10) sampleModel storage) := by
  obtain ⟨storage, hblock, ⟨table, ms', model'⟩, hrun, htable⟩ : ∃ storage : ModelStorage ℤ ℕ,
      block_model_2d (fun _ _ => 0) sampleModel 1 1 = some storage ∧
        ∃ r : List (Row ℕ ℤ) × List (Stored ℤ) × List (Weight ℤ),
          deduplicate_model (sample 10) sampleModel storage = some r ∧ r.1.map Row.is_deduplicated = [true, true] :=
    ⟨_, rfl, _, by with_unfolding_all rfl, by with_unfolding_all rfl⟩
  exact ⟨storage, table, ms', model', hrun, htable, respects_iff hblock hrun⟩

end Netsdb.Deduplicator
