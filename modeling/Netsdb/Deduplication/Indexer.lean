import Netsdb.Lib.FiniteMap
import Netsdb.Lib.Label
import Netsdb.Deduplication.Blocker
import Mathlib.Data.List.Dedup
import Mathlib.Data.Rat.Defs
import Mathlib.Algebra.Ring.Int.Defs

/-!
# The list of distinct blocks: `indexer.py`, and the output of the detector

The first model's blocks all enter the list.  Of a later model, the blocks that its table does not
deduplicate enter it; `generate_detector_output` numbers the same blocks in advance.

* `build_index`, `update_index`      what enters the list;
* `generate_detector_output`         the number of each block, in the list to come;
* `History`                          the models one after the other;
* `detector_agrees`                  each number is that of the block's contents.

The dictionaries of the tensors are one dictionary here, with the tensor in its keys.
-/

set_option linter.unusedSectionVars false

namespace Netsdb.Indexer
open Blocker FiniteMap

variable {W M A : Type} [Zero W]

/-- a row of the table that `deduplicate_model` returns, less the times; an empty text is none -/
structure Row (M A : Type) where
  duplicate_block_idx : Index
  deduplicate_block_idx : Option ℕ
  block_similarity : Option ℚ
  model_accuracy : Option A
  is_padded_block : Option Bool
  is_deduplicated : Bool
  block_magnitude : Option M

structure Indexer (W : Type) [Zero W] where
  block_size_x : ℕ
  block_size_y : ℕ
  list_blocks : List (Array2 W)
  num_total : ℕ
  model_names : List String
  counted : num_total = list_blocks.length

namespace Indexer

/-- `Indexer(block_size_x, block_size_y)` -/
def new (W : Type) [Zero W] (block_size_x block_size_y : ℕ) : Indexer W where
  block_size_x := block_size_x
  block_size_y := block_size_y
  list_blocks := []
  num_total := 0
  model_names := []
  counted := rfl

/-- `self.list_blocks.append(b)` and `self.num_total += 1` -/
def append (ix : Indexer W) (b : Array2 W) : Indexer W where
  block_size_x := ix.block_size_x
  block_size_y := ix.block_size_y
  list_blocks := ix.list_blocks ++ [b]
  num_total := ix.num_total + 1
  model_names := ix.model_names
  counted := by rw [List.length_append, List.length_singleton, ix.counted]

end Indexer

/-- `b_identifier` -/
def identifier (b : Index) : String := Label.label (Label.label (toString b.1) b.2.1) b.2.2

/-- `str(b_index)` -/
def str (b : Index) : String :=
  "(" ++ toString b.1 ++ ", " ++ toString b.2.1 ++ ", " ++ toString b.2.2 ++ ")"

def buildLoop : List (Index × Array2 W) → Indexer W × List (String × ℕ) → Indexer W × List (String × ℕ)
  | [], s => s
  | x :: blocks, (ix, index_finder) =>
    buildLoop blocks (ix.append x.2, put index_finder (identifier x.1) ix.num_total)

/-- A name that is known raises an error. -/
def build_index (ix : Indexer W) (ms : List (Stored W)) (model_name : String) :
    Option (Indexer W × List (String × ℕ)) :=
  if model_name ∈ ix.model_names then none
  else some (buildLoop (blocksFrom ix.block_size_x ix.block_size_y 0 ms)
    ({ ix with model_names := ix.model_names ++ [model_name] }, []))

def updateLoop (list_duplicate_block_idx : List String) : List (Index × Array2 W) → Indexer W → Indexer W
  | [], ix => ix
  | x :: blocks, ix =>
    if str x.1 ∈ list_duplicate_block_idx then updateLoop list_duplicate_block_idx blocks ix
    else updateLoop list_duplicate_block_idx blocks (ix.append x.2)

def update_index (ix : Indexer W) (ms : List (Stored W)) (model_dedup_output : List (Row M A)) :
    Indexer W :=
  let df_filter_by_dedup := model_dedup_output.filter (·.is_deduplicated)
  let list_duplicate_block_idx := df_filter_by_dedup.map fun row => str row.duplicate_block_idx
  updateLoop list_duplicate_block_idx (blocksFrom ix.block_size_x ix.block_size_y 0 ms) ix

structure DetectorOutput where
  tensor_mapping : List (Index × ℕ)
  blocked_tensor_dimension : List (ℕ × ℕ)
  num_distinct_blocks : ℕ

/-- the rows that are deduplicated; a tensor that is not there, or no number, raises an error -/
def mapRows (tensors : ℕ) : List (Row M A) → List (Index × ℕ) → Option (List (Index × ℕ))
  | [], mapping => some mapping
  | row :: df, mapping =>
    if row.is_deduplicated then
      match row.deduplicate_block_idx with
      | none => none
      | some d =>
        if row.duplicate_block_idx.1 < tensors then mapRows tensors df (put mapping row.duplicate_block_idx d)
        else none
    else mapRows tensors df mapping

/-- the index of each distinct block -/
def numberLoop (indexer_num_total : ℕ) : List Index → List (Index × ℕ) × ℕ → List (Index × ℕ) × ℕ
  | [], s => s
  | b :: blocks, (mapping, num_new_unique_blocks) =>
    if (mapping.lookup b).isNone then
      numberLoop indexer_num_total blocks
        (put mapping b (indexer_num_total + num_new_unique_blocks), num_new_unique_blocks + 1)
    else numberLoop indexer_num_total blocks (mapping, num_new_unique_blocks)

/-- the blocks of all tensors -/
def indicesFrom : ℕ → List (ℕ × ℕ) → List Index
  | _, [] => []
  | t, num :: nums => indicesOf t num ++ indicesFrom (t + 1) nums

def generate_detector_output (df : List (Row M A)) (ms : List (Stored W)) (indexer_num_total : ℕ) :
    Option (DetectorOutput × ℕ) := do
  let tensor_dimension := ms.map Stored.weights_block_num
  let mapping ← mapRows tensor_dimension.length df []
  let (tensor_mapping, num_new_unique_blocks) :=
    numberLoop indexer_num_total (indicesFrom 0 tensor_dimension) (mapping, 0)
  some (⟨tensor_mapping, tensor_dimension, (tensor_mapping.map Prod.snd).dedup.length⟩,
    indexer_num_total + num_new_unique_blocks)

/-- a row says that the block is a duplicate -/
def Deduplicates (df : List (Row M A)) (b : Index) : Prop :=
  ∃ row ∈ df, row.is_deduplicated = true ∧ row.duplicate_block_idx = b

/-! ## the two passes -/

section
variable {ms : List (Stored W)} {bl : List (Index × Array2 W)} {bs : List Index} {b c : Index}
  {mapping mapping' : List (Index × ℕ)} {ix : Indexer W} {dups : List String} {df : List (Row M A)}
  {total t n n' k : ℕ} {x : Index × Array2 W}

theorem mem_toDigits {a : Char} (h : a ∈ Nat.toDigits 10 n) : a.isDigit = true :=
  Nat.isDigit_of_mem_toDigits (by decide) (by decide) h

/-- the three numbers can be read back from the text -/
theorem str_inj (h : str b = str c) : b = c := by
  have hlist : ∀ b : Index, (str b).toList = '(' :: (Nat.toDigits 10 b.1 ++ ',' :: (' ' ::
      (Nat.toDigits 10 b.2.1 ++ ',' :: (' ' :: (Nat.toDigits 10 b.2.2 ++ [')']))))) := by
    intro b
    unfold str
    rw [String.toList_append, String.toList_append, String.toList_append, String.toList_append,
      String.toList_append, String.toList_append]
    show _ ++ (b.1.repr).toList ++ _ ++ (b.2.1.repr).toList ++ _ ++ (b.2.2.repr).toList ++ _ = _
    rw [Nat.toList_repr, Nat.toList_repr, Nat.toList_repr]
    simp
  have hno : ∀ (a : Char) n, a.isDigit = false → a ∉ Nat.toDigits 10 n := by
    intro a n ha hm
    rw [mem_toDigits hm] at ha
    cases ha
  have heq := congrArg String.toList h
  rw [hlist, hlist] at heq
  obtain ⟨h1, heq⟩ := Label.cut_at_first (hno _ _ rfl) (hno _ _ rfl) (List.cons.inj heq).2
  obtain ⟨h2, heq⟩ := Label.cut_at_first (hno _ _ rfl) (hno _ _ rfl) (List.cons.inj heq).2
  obtain ⟨h3, -⟩ := Label.cut_at_first (hno _ _ rfl) (hno _ _ rfl) (List.cons.inj heq).2
  exact Prod.ext (Label.toDigits_inj h1) (Prod.ext (Label.toDigits_inj h2) (Label.toDigits_inj h3))

theorem identifier_inj (h : identifier b = identifier c) : b = c := by
  obtain ⟨h, h3⟩ := Label.label_inj h
  obtain ⟨h, h2⟩ := Label.label_inj h
  refine Prod.ext (Label.toDigits_inj ?_) (Prod.ext h2 h3)
  have hl := congrArg String.toList h
  rwa [show (toString b.1).toList = Nat.toDigits 10 b.1 from Nat.toList_repr,
    show (toString c.1).toList = Nat.toDigits 10 c.1 from Nat.toList_repr] at hl

theorem indicesFrom_eq {size_x size_y : ℕ} :
    (blocksFrom size_x size_y t ms).map Prod.fst = indicesFrom t (ms.map Stored.weights_block_num) := by
  induction ms generalizing t with
  | nil => rfl
  | cons s ms ih =>
    rw [blocksFrom, List.map_append, List.map_map, ih]
    congr 1
    exact List.map_id _

/-- what enters the list in the second pass -/
theorem updateLoop_blocks : (updateLoop dups bl ix).list_blocks =
    ix.list_blocks ++ (bl.filter fun x => !decide (str x.1 ∈ dups)).map Prod.snd := by
  induction bl generalizing ix with
  | nil => exact (List.append_nil _).symm
  | cons x bl ih =>
    rw [updateLoop, List.filter_cons]
    by_cases hx : str x.1 ∈ dups
    · rw [if_pos hx, ih, if_neg (by simp [hx])]
    · rw [if_neg hx, ih, if_pos (by simp [hx]), List.map_cons, List.append_cons]
      rfl

/-- the numbers of the first pass -/
theorem numberLoop_spec (hn : bs.Nodup) {new : ℕ} (hrun : numberLoop total bs (mapping, n) = (mapping', new)) :
    let kept := bs.filter fun b => (mapping.lookup b).isNone
    new = n + kept.length ∧ (∀ k b, kept[k]? = some b → mapping'.lookup b = some (total + n + k)) ∧
      ∀ b ∉ kept, mapping'.lookup b = mapping.lookup b := by
  induction bs generalizing mapping n with
  | nil =>
    obtain ⟨rfl, rfl⟩ := Prod.mk.inj hrun
    refine ⟨rfl, fun k b h => ?_, fun _ _ => rfl⟩
    cases h
  | cons b bs ih =>
    obtain ⟨hb, hn⟩ := List.nodup_cons.mp hn
    rw [numberLoop] at hrun
    by_cases hnone : (mapping.lookup b).isNone = true
    · rw [if_pos hnone] at hrun
      obtain ⟨hnew, hnum, hother⟩ := ih hn hrun
      have hsame : ∀ c ∈ bs, ((put mapping b (total + n)).lookup c).isNone = (mapping.lookup c).isNone := by
        intro c hc
        rw [lookup_put, if_neg fun h : (c == b) = true => hb (eq_of_beq h ▸ hc)]
      rw [List.filter_congr hsame] at hnew hnum hother
      dsimp only
      rw [List.filter_cons, if_pos hnone]
      refine ⟨by rw [hnew, List.length_cons]; omega, fun k c hk => ?_, fun c hc => ?_⟩
      · cases k with
        | zero =>
          obtain rfl := Option.some.inj hk
          rw [hother b fun h => hb (List.mem_filter.mp h).1, lookup_put, if_pos (beq_self_eq_true b)]
          rfl
        | succ k =>
          rw [hnum k c hk]
          exact congrArg some (by omega)
      · obtain ⟨hne, hc⟩ := not_or.mp fun h => hc (List.mem_cons.mpr h)
        rw [hother c hc, lookup_put, if_neg fun h => hne (eq_of_beq h)]
    · rw [if_neg hnone] at hrun
      dsimp only
      rw [List.filter_cons, if_neg hnone]
      exact ih hn hrun

theorem deduplicates_cons {row : Row M A} :
    Deduplicates (row :: df) b ↔ (row.is_deduplicated = true ∧ row.duplicate_block_idx = b) ∨ Deduplicates df b := by
  unfold Deduplicates
  rw [List.exists_mem_cons_iff]

/-- the number that the rows give to a block is that of one of its rows -/
theorem mapRows_spec {tensors : ℕ} (hrun : mapRows tensors df mapping = some mapping') (b : Index) :
    (Deduplicates df b → ∃ row ∈ df, row.is_deduplicated = true ∧ row.duplicate_block_idx = b ∧
      ∃ d, row.deduplicate_block_idx = some d ∧ mapping'.lookup b = some d) ∧
    (¬ Deduplicates df b → mapping'.lookup b = mapping.lookup b) := by
  induction df generalizing mapping with
  | nil =>
    obtain rfl := Option.some.inj hrun
    refine ⟨fun ⟨_, h, _⟩ => ?_, fun _ => rfl⟩
    cases h
  | cons row df ih =>
    rw [mapRows] at hrun
    rw [deduplicates_cons]
    by_cases hd : row.is_deduplicated = true
    · rw [if_pos hd] at hrun
      cases hidx : row.deduplicate_block_idx with
      | none =>
        rw [hidx] at hrun
        cases hrun
      | some d =>
        rw [hidx] at hrun
        dsimp only at hrun
        split at hrun
        · obtain ⟨hlater, hnone⟩ := ih hrun
          by_cases hdf : Deduplicates df b
          · obtain ⟨r, hr, hrest⟩ := hlater hdf
            exact ⟨fun _ => ⟨r, List.mem_cons_of_mem _ hr, hrest⟩, fun hno => absurd (Or.inr hdf) hno⟩
          · -- no later row has the block
            have hput := hnone hdf
            rw [lookup_put] at hput
            by_cases hb : row.duplicate_block_idx = b
            · rw [if_pos (beq_iff_eq.mpr hb.symm)] at hput
              refine ⟨fun _ => ⟨row, List.mem_cons_self, hd, hb, d, hidx, hput⟩, fun hno => ?_⟩
              exact absurd (Or.inl ⟨hd, hb⟩) hno
            · rw [if_neg fun h => hb (eq_of_beq h).symm] at hput
              exact ⟨fun h => absurd h (not_or.mpr ⟨fun h => hb h.2, hdf⟩), fun _ => hput⟩
        · cases hrun
    · rw [if_neg hd] at hrun
      obtain ⟨hlater, hnone⟩ := ih hrun
      refine ⟨fun h => ?_, fun h => hnone (not_or.mp h).2⟩
      obtain ⟨r, hr, hrest⟩ := hlater (h.resolve_left fun h => hd h.1)
      exact ⟨r, List.mem_cons_of_mem _ hr, hrest⟩

/-- the first model: everything enters, and is found by its identifier -/
theorem buildLoop_spec {finder finder' : List (String × ℕ)} {ix' : Indexer W} (hn : (bl.map Prod.fst).Nodup)
    (hrun : buildLoop bl (ix, finder) = (ix', finder')) :
    ix'.list_blocks = ix.list_blocks ++ bl.map Prod.snd ∧
      (∀ k x, bl[k]? = some x → finder'.lookup (identifier x.1) = some (ix.num_total + k)) ∧
      ∀ b ∉ bl.map Prod.fst, finder'.lookup (identifier b) = finder.lookup (identifier b) := by
  induction bl generalizing ix finder with
  | nil =>
    obtain ⟨rfl, rfl⟩ := Prod.mk.inj hrun
    refine ⟨(List.append_nil _).symm, fun k x h => ?_, fun _ _ => rfl⟩
    cases h
  | cons x bl ih =>
    obtain ⟨hx, hn⟩ := List.nodup_cons.mp hn
    obtain ⟨hblocks, hnum, hother⟩ := ih hn hrun
    refine ⟨hblocks.trans (List.append_assoc _ _ _), fun k y hk => ?_, fun b hb => ?_⟩
    · cases k with
      | zero =>
        obtain rfl := Option.some.inj hk
        rw [hother x.1 hx, lookup_put, if_pos (beq_self_eq_true _)]
        rfl
      | succ k =>
        rw [hnum k y hk]
        show some (ix.num_total + 1 + k) = some (ix.num_total + (k + 1))
        exact congrArg some (by omega)
    · obtain ⟨hne, hb⟩ := not_or.mp fun h => hb (List.mem_cons.mpr h)
      rw [hother b hb, lookup_put, if_neg fun h => hne (identifier_inj (eq_of_beq h))]

/-- both passes skip the same blocks -/
theorem mem_duplicates :
    str b ∈ (df.filter (·.is_deduplicated)).map (fun row => str row.duplicate_block_idx) ↔ Deduplicates df b := by
  rw [List.mem_map]
  constructor
  · rintro ⟨row, hrow, hb⟩
    obtain ⟨hrow, hd⟩ := List.mem_filter.mp hrow
    exact ⟨row, hrow, hd, str_inj hb⟩
  · rintro ⟨row, hrow, hd, rfl⟩
    exact ⟨row, List.mem_filter.mpr ⟨hrow, hd⟩, rfl⟩

end

/-! ## one model after the other -/

/-- the deduplicated rows name blocks of the list -/
def Chosen (ix : Indexer W) (table : List (Row M A)) : Prop :=
  ∀ row ∈ table, row.is_deduplicated = true → ∀ d, row.deduplicate_block_idx = some d → d < ix.list_blocks.length

/-- a model, with its table, and the list before and after it: which number each of its blocks has -/
structure Indexed (W M A : Type) [Zero W] where
  weights : List (Stored W)
  table : List (Row M A)
  before : Indexer W
  ids : Index → Option ℕ
  count : ℕ
  after : Indexer W

/-- the blocks of the model, with their contents -/
def Indexed.blocks (e : Indexed W M A) : List (Index × Array2 W) :=
  blocksFrom e.before.block_size_x e.before.block_size_y 0 e.weights

/-- the models so far -/
inductive History : Indexer W → List (Indexed W M A) → Prop where
  | first {size_x size_y : ℕ} {ms : List (Stored W)} {name : String} {ix : Indexer W}
      {index_finder : List (String × ℕ)}
      (hbuild : build_index (Indexer.new W size_x size_y) ms name = some (ix, index_finder)) :
      History ix [⟨ms, [], Indexer.new W size_x size_y, fun b => index_finder.lookup (identifier b),
        ix.num_total, ix⟩]
  | next {ix : Indexer W} {es : List (Indexed W M A)} {ms : List (Stored W)} {table : List (Row M A)}
      {output : DetectorOutput} {count : ℕ} (h : History ix es) (htable : Chosen ix table)
      (hrun : generate_detector_output table ms ix.num_total = some (output, count)) :
      History (update_index ix ms table) (es ++ [⟨ms, table, ix, fun b => output.tensor_mapping.lookup b,
        count, update_index ix ms table⟩])

/-- the numbers of a model are positions of the list, with the right blocks -/
structure Agrees (ix : Indexer W) (e : Indexed W M A) : Prop where
  position : ∀ x ∈ e.blocks, ∃ id, e.ids x.1 = some id ∧ id < ix.list_blocks.length ∧
    (Deduplicates e.table x.1 → ∃ row ∈ e.table, row.is_deduplicated = true ∧ row.duplicate_block_idx = x.1 ∧
      row.deduplicate_block_idx = some id ∧ ∃ chosen, e.before.list_blocks[id]? = some chosen ∧
        ix.list_blocks[id]? = some chosen) ∧
    (¬ Deduplicates e.table x.1 → ix.list_blocks[id]? = some x.2)
  distinct : ∀ x ∈ e.blocks, ∀ y ∈ e.blocks, ¬ Deduplicates e.table x.1 → ¬ Deduplicates e.table y.1 →
    e.ids x.1 = e.ids y.1 → x.1 = y.1
  count : e.count = e.after.num_total

section
variable {ix ix' : Indexer W} {e : Indexed W M A} {es : List (Indexed W M A)} {ms : List (Stored W)}
  {table : List (Row M A)} {output : DetectorOutput} {count : ℕ} {more : List (Array2 W)}

/-- the list only grows -/
theorem Agrees.grow (h : Agrees ix e) (hmore : ix'.list_blocks = ix.list_blocks ++ more) : Agrees ix' e where
  position x hx := by
    obtain ⟨id, hid, hlt, hdup, hown⟩ := h.position x hx
    have hget : ix'.list_blocks[id]? = ix.list_blocks[id]? := by rw [hmore, List.getElem?_append_left hlt]
    refine ⟨id, hid, ?_, fun hd => ?_, fun hno => hget.trans (hown hno)⟩
    · rw [hmore, List.length_append]
      omega
    · obtain ⟨row, hrow, hrd, hrb, hidx, chosen, hbefore, hnow⟩ := hdup hd
      exact ⟨row, hrow, hrd, hrb, hidx, chosen, hbefore, hget.trans hnow⟩
  distinct := h.distinct
  count := h.count

theorem update_index_blocks : (update_index ix ms table).list_blocks = ix.list_blocks ++
    ((blocksFrom ix.block_size_x ix.block_size_y 0 ms).filter fun x =>
      !decide (str x.1 ∈ (table.filter (·.is_deduplicated)).map fun row => str row.duplicate_block_idx)).map
        Prod.snd := updateLoop_blocks

/-- both passes go through the blocks that are kept, in one order -/
theorem agrees_of_kept {kept : List (Index × Array2 W)} (hchosen : Chosen e.before e.table)
    (hmem : ∀ x, x ∈ kept ↔ x ∈ e.blocks ∧ ¬ Deduplicates e.table x.1)
    (hblocks : e.after.list_blocks = e.before.list_blocks ++ kept.map Prod.snd)
    (hcount : e.count = e.before.num_total + kept.length)
    (hnum : ∀ k x, kept[k]? = some x → e.ids x.1 = some (e.before.num_total + k))
    (hdup : ∀ b, Deduplicates e.table b → ∃ row ∈ e.table, row.is_deduplicated = true ∧
      row.duplicate_block_idx = b ∧ ∃ d, row.deduplicate_block_idx = some d ∧ e.ids b = some d) :
    Agrees e.after e := by
  refine ⟨fun x hx => ?_, fun x hx y hy hxd hyd hid => ?_, ?_⟩
  · by_cases hd : Deduplicates e.table x.1
    · obtain ⟨row, hrow, hrd, hrb, d, hidx, hid⟩ := hdup x.1 hd
      have hlt := hchosen row hrow hrd d hidx
      have hget := List.getElem?_eq_getElem hlt
      have hget' : e.after.list_blocks[d]? = some e.before.list_blocks[d] := by
        rw [hblocks, List.getElem?_append_left hlt, hget]
      refine ⟨d, hid, (List.getElem?_eq_some_iff.mp hget').1, fun _ => ?_, fun h => absurd hd h⟩
      exact ⟨row, hrow, hrd, hrb, hidx, _, hget, hget'⟩
    · obtain ⟨k, hk⟩ := List.mem_iff_getElem?.mp ((hmem x).mpr ⟨hx, hd⟩)
      have hget : e.after.list_blocks[e.before.num_total + k]? = some x.2 := by
        rw [hblocks, e.before.counted, List.getElem?_append_right (Nat.le_add_right _ _),
          Nat.add_sub_cancel_left, List.getElem?_map, hk]
        rfl
      exact ⟨_, hnum k x hk, (List.getElem?_eq_some_iff.mp hget).1, fun h => absurd h hd, fun _ => hget⟩
  · obtain ⟨k, hk⟩ := List.mem_iff_getElem?.mp ((hmem x).mpr ⟨hx, hxd⟩)
    obtain ⟨l, hl⟩ := List.mem_iff_getElem?.mp ((hmem y).mpr ⟨hy, hyd⟩)
    have heq := Option.some.inj ((hnum k x hk).symm.trans (hid.trans (hnum l y hl)))
    obtain rfl := Nat.add_left_cancel heq
    exact congrArg Prod.fst (Option.some.inj (hk.symm.trans hl))
  · rw [hcount, e.after.counted, hblocks, List.length_append, List.length_map, e.before.counted]

/-- nothing is deduplicated in the first model -/
theorem agrees_first {size_x size_y : ℕ} {name : String} {index_finder : List (String × ℕ)}
    (hbuild : build_index (Indexer.new W size_x size_y) ms name = some (ix, index_finder)) :
    Agrees (M := M) (A := A) ix ⟨ms, [], Indexer.new W size_x size_y,
      fun b => index_finder.lookup (identifier b), ix.num_total, ix⟩ := by
  have hrun : buildLoop (blocksFrom size_x size_y 0 ms)
      ({ Indexer.new W size_x size_y with model_names := [name] }, []) = (ix, index_finder) := Option.some.inj hbuild
  obtain ⟨hblocks, hnum, -⟩ := buildLoop_spec nodup_blocksFrom hrun
  have hnone : ∀ b, ¬ Deduplicates ([] : List (Row M A)) b := fun _ ⟨_, h, _⟩ => by cases h
  have hmem : ∀ x, x ∈ blocksFrom size_x size_y 0 ms ↔
      x ∈ blocksFrom size_x size_y 0 ms ∧ ¬ Deduplicates ([] : List (Row M A)) x.1 :=
    fun x => ⟨fun h => ⟨h, hnone x.1⟩, And.left⟩
  refine agrees_of_kept (e := ⟨ms, [], Indexer.new W size_x size_y,
      fun b => index_finder.lookup (identifier b), ix.num_total, ix⟩)
    (fun _ h => by cases h) hmem hblocks ?_ hnum fun b h => absurd h (hnone b)
  show ix.num_total = 0 + (blocksFrom size_x size_y 0 ms).length
  rw [ix.counted, hblocks, List.length_append, List.length_map]
  rfl

theorem agrees_next (hchosen : Chosen ix table)
    (hrun : generate_detector_output table ms ix.num_total = some (output, count)) :
    Agrees (update_index ix ms table)
      ⟨ms, table, ix, fun b => output.tensor_mapping.lookup b, count, update_index ix ms table⟩ := by
  obtain ⟨mapping, hrows, hrun⟩ := Option.bind_eq_some_iff.mp hrun
  obtain ⟨rfl, rfl⟩ := Prod.mk.inj (Option.some.inj hrun)
  -- what the rows say of a block, and which blocks are left
  have hmap := mapRows_spec hrows
  have hleft : ∀ b, (mapping.lookup b).isNone = true ↔ ¬ Deduplicates table b := by
    intro b
    by_cases hb : Deduplicates table b
    · obtain ⟨_, _, _, _, d, _, hd⟩ := (hmap b).1 hb
      rw [hd]
      exact ⟨fun h => (by cases h), fun h => absurd hb h⟩
    · rw [(hmap b).2 hb]
      exact ⟨fun _ => hb, fun _ => rfl⟩
  generalize hloop : numberLoop ix.num_total (indicesFrom 0 (ms.map Stored.weights_block_num)) (mapping, 0) = r
  rw [← @indicesFrom_eq W _ ms 0 ix.block_size_x ix.block_size_y] at hloop
  obtain ⟨hnew, hnum, hother⟩ := numberLoop_spec nodup_blocksFrom (show _ = (r.1, r.2) from hloop)
  have hblocks : (update_index ix ms table).list_blocks = _ := update_index_blocks
  generalize hkept : ((blocksFrom ix.block_size_x ix.block_size_y 0 ms).filter fun x => !decide (str x.1 ∈
    (table.filter (·.is_deduplicated)).map fun row => str row.duplicate_block_idx)) = kept at hblocks
  have hmem : ∀ x, x ∈ kept ↔ x ∈ blocksFrom ix.block_size_x ix.block_size_y 0 ms ∧ ¬ Deduplicates table x.1 := by
    intro x
    rw [← hkept, List.mem_filter, Bool.not_eq_true', decide_eq_false_iff_not, mem_duplicates]
  have hsame : ((blocksFrom ix.block_size_x ix.block_size_y 0 ms).map Prod.fst).filter
      (fun b => (mapping.lookup b).isNone) = kept.map Prod.fst := by
    rw [List.filter_map, ← hkept]
    refine congrArg _ (List.filter_congr fun x _ => ?_)
    refine Bool.eq_iff_iff.mpr ((hleft x.1).trans ?_)
    rw [Bool.not_eq_true', decide_eq_false_iff_not, mem_duplicates]
  rw [hsame] at hnew hnum hother
  refine agrees_of_kept (e := ⟨ms, table, ix, fun b => r.1.lookup b, ix.num_total + r.2, update_index ix ms table⟩)
    hchosen hmem hblocks ?_ (fun k x hk => hnum k x.1 ?_) fun b hb => ?_
  · show ix.num_total + r.2 = ix.num_total + kept.length
    rw [hnew, List.length_map, Nat.zero_add]
  · rw [List.getElem?_map, hk]
    rfl
  · obtain ⟨row, hrow, hrd, hrb, d, hidx, hlookup⟩ := (hmap b).1 hb
    have hout : b ∉ kept.map Prod.fst := by
      intro h
      obtain ⟨y, hy, hyb⟩ := List.mem_map.mp h
      exact ((hmem y).mp hy).2 (hyb ▸ hb)
    exact ⟨row, hrow, hrd, hrb, d, hidx, (hother b hout).trans hlookup⟩

/-- **The detector's numbers are those of the list**, for every model and at the end. -/
theorem detector_agrees (h : History ix es) : ∀ e ∈ es, Agrees ix e := by
  induction h with
  | first hbuild =>
    intro e he
    rw [List.mem_singleton.mp he]
    exact agrees_first hbuild
  | next h htable hrun ih =>
    intro e he
    rcases List.mem_append.mp he with he | he
    · exact (ih e he).grow update_index_blocks
    · rw [List.mem_singleton.mp he]
      exact agrees_next htable hrun

/-- a model of one row in two blocks, and one of the same shape whose second block is the first
block of the list -/
theorem detector_agrees_two :
    ∃ (ix : Indexer ℤ) (es : List (Indexed ℤ Unit Unit)), es.length = 2 ∧ (∀ e ∈ es, Agrees ix e) ∧
      es.map Indexed.count = [2, 3] := by
  let ms (x : ℤ) : List (Stored ℤ) := [⟨Array2.of 1 2 fun _ j => x + j, .two 1 2, 1, 2⟩]
  let table : List (Row Unit Unit) := [⟨(0, 0, 1), some 0, none, none, none, true, none⟩,
    ⟨(0, 0, 0), none, none, none, none, false, none⟩]
  have hbuild : build_index (Indexer.new ℤ 1 1) (ms 3) "m1" = some (_, _) := rfl
  have hrun : generate_detector_output table (ms 2) 2 = some (_, _) := rfl
  have hchosen : ∀ ix : Indexer ℤ, 0 < ix.list_blocks.length → Chosen ix table := by
    intro ix hlt row hrow _ d hd
    rcases List.mem_cons.mp hrow with rfl | hrow
    · obtain rfl := Option.some.inj hd
      exact hlt
    · obtain rfl := List.mem_singleton.mp hrow
      cases hd
  have hnext := (History.first hbuild).next (hchosen _ (by decide)) hrun
  exact ⟨_, _, rfl, detector_agrees hnext, rfl⟩

end

end Netsdb.Indexer
