import Netsdb.BuiltIn.MapRetry

/-!
# `MapTupleSetIterator`

The iterator returns the entries of a map in tuple sets of a chunk's size.  It fills one column again
and again, and cuts off what is left of the last chunk at the end of the map only.

* `getNextTupleSet`   the call; when there is not enough space it takes its steps back;
* `Scans`             what the iterator is for, over all calls;
* `next_spec`         what a call returns: the next entries, and perhaps old ones behind them;
* `mapScan_iff`       so the scan is right if and only if no chunk is smaller than the one before it,
  but for the last.
-/

set_option linter.unusedSectionVars false

namespace Netsdb

structure MapTupleSetIterator (K V : Type*) where
  iterateOverMe : PDBMap K V
  chunkSize : ℕ
  /-- the column of `output`; an output object is a key and a value -/
  inputColumn : List (K × V)
  begin : PDBMapIterator

/-- a call of `setChunkSize` and `getNextTupleSet`; `fail i`: there is not enough space for the output
object `i` -/
structure ScanCall where
  chunkSize : ℕ
  fail : ℕ → Bool
  pos : 0 < chunkSize

inductive ScanResult (α : Type*)
  | tupleSet (column : List α)
  | nullptr
  | notEnoughSpace
deriving DecidableEq

namespace MapTupleSetIterator
variable {K V : Type*} [BEq K] [Hashable K] [Inhabited K] [Inhabited V]

/-- the constructor -/
def create (m : PDBMap K V) (chunkSize : ℕ) : MapTupleSetIterator K V := ⟨m, chunkSize, [], m.begin⟩

/-- the loop from `i` on, with `n` turns to go; `none`: there is not enough space.  A table has at most
`2^31` slots, so the counters are in the range of `int`. -/
def fillColumn (m : PDBMap K V) (fail : ℕ → Bool) (limit : ℕ) :
    ℕ → ℕ → PDBMapIterator → List (K × V) → Option (PDBMapIterator × List (K × V))
  | 0, _, begin, column => some (begin, column)
  | n + 1, i, begin, column =>
    if fail i then none
    else
      let column := if limit ≤ i then column ++ [default] else column.set i default
      let column := column.set i ((m.myArray.data begin.slot).key, (m.myArray.data begin.slot).value)
      let begin := m.next begin
      if begin.done then some (begin, if i + 1 < limit then column.take (i + 1) else column)
      else fillColumn m fail limit n (i + 1) begin column

def getNextTupleSet (fail : ℕ → Bool) (s : MapTupleSetIterator K V) :
    MapTupleSetIterator K V × ScanResult (K × V) :=
  if s.begin.done then (s, .nullptr)
  else
    match fillColumn s.iterateOverMe fail s.inputColumn.length s.chunkSize 0 s.begin s.inputColumn with
    | some (begin, column) => ({ s with begin := begin, inputColumn := column }, .tupleSet column)
    | none => ({ s with inputColumn := [] }, .notEnoughSpace)

def call (c : ScanCall) (s : MapTupleSetIterator K V) :
    MapTupleSetIterator K V × ScanResult (K × V) :=
  { s with chunkSize := c.chunkSize }.getNextTupleSet c.fail

def results : List ScanCall → MapTupleSetIterator K V → List (ScanResult (K × V))
  | [], _ => []
  | c :: calls, s => (s.call c).2 :: results calls (s.call c).1

end MapTupleSetIterator

/-! ## What the iterator is for -/

section
variable {α : Type*}

def ScanResult.column : ScanResult α → List α
  | .tupleSet column => column
  | _ => []

/-- a tuple set has items, and as many as the chunk at most -/
def ScanResult.Sized (c : ScanCall) : ScanResult α → Prop
  | .tupleSet column => column ≠ [] ∧ column.length ≤ c.chunkSize
  | _ => True

def ScanResult.returned : ScanResult α → Bool
  | .notEnoughSpace => false
  | _ => true

/-- the tuple sets are the items one after another, each once; all of them at the end, and the end is
reached -/
structure Scans (items : List α) (calls : List ScanCall) (results : List (ScanResult α)) : Prop where
  sized : List.Forall₂ ScanResult.Sized calls results
  once : results.flatMap ScanResult.column <+: items
  all : .nullptr ∈ results → results.flatMap ScanResult.column = items
  ends : items.length < results.countP ScanResult.returned → .nullptr ∈ results

/-- each chunk is as large as the last tuple set, or as large as what is left; `limit` is the size of
the last tuple set and `left` the number of items that are left -/
def Steady : ℕ → ℕ → List ScanCall → Prop
  | _, _, [] => True
  | limit, left, c :: calls =>
    if left = 0 then Steady limit left calls
    else if ∃ i < min c.chunkSize left, c.fail i = true then Steady 0 left calls
    else (limit ≤ c.chunkSize ∨ left ≤ c.chunkSize) ∧
      Steady (min c.chunkSize left) (left - min c.chunkSize left) calls

end

/-! ## One call -/

namespace MapTupleSetIterator
variable {K V : Type*} [BEq K] [Hashable K] [Inhabited K] [Inhabited V] [EquivBEq K]
  [LawfulHashable K] {m : PDBMap K V}

/-- the object `i` is put into the column, behind those of this call -/
theorem column_step {α : Type*} {done old : List α} {i : ℕ} (hdone : done.length = i) (x e : α) :
    (if old.length ≤ i then done ++ old.drop i ++ [x] else (done ++ old.drop i).set i x).set i e =
      done ++ [e] ++ old.drop (i + 1) := by
  subst hdone
  by_cases hle : old.length ≤ done.length
  · rw [if_pos hle, List.drop_eq_nil_of_le hle, List.drop_eq_nil_of_le (Nat.le_succ_of_le hle),
      List.append_nil, List.append_nil, List.set_append_right _ _ (Nat.le_refl _), Nat.sub_self]
    rfl
  · have hlt : done.length < old.length := Nat.lt_of_not_le hle
    rw [if_neg hle, List.set_set, List.drop_eq_getElem_cons hlt,
      List.set_append_right _ _ (Nat.le_refl _), Nat.sub_self, List.set_cons_zero, List.append_assoc]
    rfl

/-- **The loop**: it stops where there is not enough space, else it puts the next entries over the old
ones; these are cut off only if the map is at its end. -/
theorem fillColumn_spec (fail : ℕ → Bool) (old : List (K × V)) (n : ℕ) :
    ∀ (i : ℕ) (begin : PDBMapIterator) (done : List (K × V)), m.Placed begin → begin.done = false →
    done.length = i →
    ((∃ j < min n (m.rest begin).length, fail (i + j) = true) ∧
        fillColumn m fail old.length n i begin (done ++ old.drop i) = none) ∨
      (¬ (∃ j < min n (m.rest begin).length, fail (i + j) = true) ∧
        ∃ begin', m.Placed begin' ∧ m.rest begin' = (m.rest begin).drop n ∧
          fillColumn m fail old.length n i begin (done ++ old.drop i) =
            some (begin', done ++ (m.rest begin).take n ++
              if n < (m.rest begin).length then old.drop (i + n) else [])) := by
  induction n with
  | zero =>
    intro i begin done hplaced hnot hdone
    obtain ⟨-, -, -, hrest⟩ := PDBMap.placed_next hplaced hnot
    refine .inr ⟨fun ⟨j, hj, _⟩ => ?_, begin, hplaced, List.drop_zero.symm, ?_⟩
    · rw [Nat.zero_min] at hj
      exact absurd hj (Nat.not_lt_zero j)
    · rw [fillColumn, hrest, List.length_cons, if_pos (Nat.succ_pos _), List.take_zero, List.append_nil,
        Nat.add_zero]
  | succ n ih =>
    intro i begin done hplaced hnot hdone
    obtain ⟨hplaced', -, -, hrest⟩ := PDBMap.placed_next hplaced hnot
    rw [fillColumn, hrest]
    dsimp only
    rw [column_step hdone]
    generalize ((m.myArray.data begin.slot).key, (m.myArray.data begin.slot).value) = e
    rw [List.length_cons, Nat.succ_min_succ]
    by_cases hfail : fail i = true
    · exact .inl ⟨⟨0, Nat.succ_pos _, hfail⟩, if_pos hfail⟩
    · rw [if_neg hfail]
      have hshift : (∃ j < min n (m.rest (m.next begin)).length + 1, fail (i + j) = true) ↔
          ∃ j < min n (m.rest (m.next begin)).length, fail (i + 1 + j) = true := by
        constructor
        · rintro ⟨j, hj, hf⟩
          cases j with
          | zero => exact absurd hf hfail
          | succ j =>
            refine ⟨j, Nat.lt_of_succ_lt_succ hj, ?_⟩
            rw [Nat.add_right_comm]
            exact hf
        · rintro ⟨j, hj, hf⟩
          rw [Nat.add_right_comm] at hf
          exact ⟨j + 1, Nat.succ_lt_succ hj, hf⟩
      rw [hshift]
      have hdone' : (done ++ [e]).length = i + 1 := by
        rw [List.length_append, hdone]
        rfl
      by_cases hend : (m.next begin).done = true
      · have hnil := PDBMap.rest_of_done hplaced' hend
        rw [hnil, if_pos hend]
        refine .inr ⟨fun ⟨j, hj, _⟩ => ?_, m.next begin, hplaced', hnil.trans List.drop_nil.symm, ?_⟩
        · rw [List.length_nil, Nat.min_zero] at hj
          exact absurd hj (Nat.not_lt_zero j)
        · have hshort : ¬ n + 1 < ([] : List (K × V)).length + 1 := fun h =>
            Nat.not_lt_zero n (Nat.lt_of_succ_lt_succ h)
          rw [if_neg hshort, List.take_succ_cons, List.take_nil, List.append_nil]
          split
          case isTrue =>
            rw [List.take_append_of_le_length hdone'.ge, List.take_of_length_le hdone'.le]
          case isFalse hle =>
            rw [List.drop_eq_nil_of_le (Nat.le_of_not_lt hle), List.append_nil]
      · rw [if_neg hend]
        have hiff : n + 1 < (m.rest (m.next begin)).length + 1 ↔ n < (m.rest (m.next begin)).length :=
          Nat.succ_lt_succ_iff
        obtain ⟨hf, hrun⟩ | ⟨hf, begin', hplaced'', hrest', hrun⟩ := ih (i + 1) (m.next begin)
          (done ++ [e]) hplaced' (Bool.not_eq_true _ ▸ hend) hdone'
        · exact .inl ⟨hf, hrun⟩
        · refine .inr ⟨hf, begin', hplaced'', hrest', ?_⟩
          rw [hrun, List.take_succ_cons, List.append_assoc done [e], if_congr hiff rfl rfl,
            Nat.add_assoc i 1, Nat.add_comm 1 n]
          rfl

/-- the iterator is over the map, at an entry or at the end -/
structure At (m : PDBMap K V) (s : MapTupleSetIterator K V) : Prop where
  map : s.iterateOverMe = m
  placed : m.Placed s.begin

theorem create_at (m : PDBMap K V) (chunkSize : ℕ) : (create m chunkSize).At m :=
  ⟨rfl, (PDBMap.placed_begin m).1⟩

/-- **A call** at the end, without enough space, and with enough -/
theorem call_spec {s : MapTupleSetIterator K V} (h : s.At m) (c : ScanCall) :
    (m.rest s.begin = [] ∧ (s.call c).2 = .nullptr ∧ (s.call c).1.At m ∧
        (s.call c).1.begin = s.begin ∧ (s.call c).1.inputColumn = s.inputColumn) ∨
      (m.rest s.begin ≠ [] ∧ (∃ i < min c.chunkSize (m.rest s.begin).length, c.fail i = true) ∧
        (s.call c).2 = .notEnoughSpace ∧ (s.call c).1.At m ∧ (s.call c).1.begin = s.begin ∧
        (s.call c).1.inputColumn = []) ∨
      (m.rest s.begin ≠ [] ∧ ¬ (∃ i < min c.chunkSize (m.rest s.begin).length, c.fail i = true) ∧
        (s.call c).2 = .tupleSet (s.call c).1.inputColumn ∧ (s.call c).1.At m ∧
        m.rest (s.call c).1.begin = (m.rest s.begin).drop c.chunkSize ∧
        (s.call c).1.inputColumn = (m.rest s.begin).take c.chunkSize ++
          if c.chunkSize < (m.rest s.begin).length then s.inputColumn.drop c.chunkSize else []) := by
  obtain ⟨rfl, hplaced⟩ := h
  by_cases hend : s.begin.done = true
  · have hcall : s.call c = ({ s with chunkSize := c.chunkSize }, .nullptr) := if_pos hend
    rw [hcall]
    exact .inl ⟨PDBMap.rest_of_done hplaced hend, rfl, ⟨rfl, hplaced⟩, rfl, rfl⟩
  · have hnot : s.begin.done = false := Bool.not_eq_true _ ▸ hend
    have hne : s.iterateOverMe.rest s.begin ≠ [] := by
      obtain ⟨-, -, -, hrest⟩ := PDBMap.placed_next hplaced hnot
      rw [hrest]
      exact List.cons_ne_nil _ _
    have hspec := fillColumn_spec c.fail s.inputColumn c.chunkSize 0 s.begin [] hplaced hnot rfl
    simp only [Nat.zero_add, List.nil_append, List.drop_zero] at hspec
    rw [call, getNextTupleSet, if_neg hend]
    dsimp only
    obtain ⟨hfail, hrun⟩ | ⟨hfail, begin', hplaced', hrest', hrun⟩ := hspec
    · rw [hrun]
      exact .inr (.inl ⟨hne, hfail, rfl, ⟨rfl, hplaced⟩, rfl, rfl⟩)
    · rw [hrun]
      exact .inr (.inr ⟨hne, hfail, rfl, ⟨rfl, hplaced'⟩, hrest', rfl⟩)

/-! ## All calls -/

section
variable {s : MapTupleSetIterator K V} {c : ScanCall} {calls : List ScanCall}

theorem steady_zero (calls : List ScanCall) : ∀ limit, Steady limit 0 calls := by
  induction calls with
  | nil => exact fun _ => trivial
  | cons c calls ih =>
    intro limit
    rw [Steady, if_pos rfl]
    exact ih limit

/-- what comes back is the next chunk and nothing else, if it is as large as the last tuple set or as
what is left -/
theorem chunk_eq {α : Type*} {items old : List α} {n : ℕ} (h : old.length ≤ n ∨ items.length ≤ n) :
    (items.take n ++ if n < items.length then old.drop n else []) = items.take n := by
  split
  case isTrue hlt =>
    rw [List.drop_eq_nil_of_le (h.resolve_right (Nat.not_le_of_lt hlt)), List.append_nil]
  case isFalse => rw [List.append_nil]

/-- old objects come back in a tuple set that is too long -/
theorem chunk_long {α : Type*} {items old : List α} {n : ℕ} (h : ¬ (old.length ≤ n ∨ items.length ≤ n)) :
    n < (items.take n ++ if n < items.length then old.drop n else []).length := by
  obtain ⟨hold, hitems⟩ := not_or.mp h
  rw [if_pos (Nat.lt_of_not_le hitems), List.length_append, List.length_take, List.length_drop]
  omega

theorem length_drop_min {α : Type*} (items : List α) (n : ℕ) :
    (items.drop n).length = items.length - min n items.length := by
  rw [List.length_drop]
  omega

theorem steady_of_sized (calls : List ScanCall) : ∀ {s : MapTupleSetIterator K V}, s.At m →
    List.Forall₂ ScanResult.Sized calls (results calls s) →
    Steady s.inputColumn.length (m.rest s.begin).length calls := by
  induction calls with
  | nil => exact fun _ _ => trivial
  | cons c calls ih =>
    intro s h hsized
    rw [results] at hsized
    obtain ⟨hhead, htail⟩ := List.forall₂_cons.mp hsized
    rw [Steady]
    obtain ⟨hnil, -, -, -, -⟩ | ⟨hne, hfail, -, h', hbegin, hcolumn⟩ |
      ⟨hne, hfail, hresult, h', hrest, hcolumn⟩ := call_spec h c
    · rw [hnil, List.length_nil, if_pos rfl]
      exact steady_zero calls _
    · have hsteady := ih h' htail
      rw [hbegin, hcolumn, List.length_nil] at hsteady
      rw [if_neg fun hzero => hne (List.length_eq_zero_iff.mp hzero), if_pos hfail]
      exact hsteady
    · rw [if_neg fun hzero => hne (List.length_eq_zero_iff.mp hzero), if_neg hfail]
      rw [hresult] at hhead
      have hle := hhead.2
      have hfits : s.inputColumn.length ≤ c.chunkSize ∨ (m.rest s.begin).length ≤ c.chunkSize := by
        by_contra hnot
        rw [hcolumn] at hle
        exact absurd (chunk_long hnot) (Nat.not_lt_of_le hle)
      have hsteady := ih h' htail
      rw [hrest, hcolumn, chunk_eq hfits, List.length_take, length_drop_min] at hsteady
      exact ⟨hfits, hsteady⟩

theorem scans_of_steady (calls : List ScanCall) : ∀ {s : MapTupleSetIterator K V}, s.At m →
    Steady s.inputColumn.length (m.rest s.begin).length calls →
    Scans (m.rest s.begin) calls (results calls s) := by
  induction calls with
  | nil =>
    intro s _ _
    exact ⟨.nil, List.nil_prefix, fun hin => absurd hin List.not_mem_nil,
      fun hlt => absurd hlt (Nat.not_lt_zero _)⟩
  | cons c calls ih =>
    intro s h hsteady
    rw [Steady] at hsteady
    rw [results]
    obtain ⟨hnil, hresult, h', hbegin, hcolumn⟩ | ⟨hne, hfail, hresult, h', hbegin, hcolumn⟩ |
      ⟨hne, hfail, hresult, h', hrest, hcolumn⟩ := call_spec h c
    · rw [hnil, List.length_nil, if_pos rfl] at hsteady
      have hscan := ih h' (by rw [hbegin, hcolumn, hnil]; exact hsteady)
      rw [hbegin, hnil] at hscan
      rw [hresult, hnil]
      exact ⟨.cons trivial hscan.sized, hscan.once, fun _ => List.prefix_nil.mp hscan.once,
        fun _ => List.mem_cons_self⟩
    · rw [if_neg fun hzero => hne (List.length_eq_zero_iff.mp hzero), if_pos hfail] at hsteady
      have hscan := ih h' (by rw [hbegin, hcolumn]; exact hsteady)
      rw [hbegin] at hscan
      rw [hresult]
      refine ⟨.cons trivial hscan.sized, hscan.once, fun hin => ?_, fun hlt => ?_⟩
      · exact hscan.all ((List.mem_cons.mp hin).resolve_left nofun)
      · exact List.mem_cons_of_mem _ (hscan.ends hlt)
    · rw [if_neg fun hzero => hne (List.length_eq_zero_iff.mp hzero), if_neg hfail] at hsteady
      obtain ⟨hfits, hsteady⟩ := hsteady
      rw [chunk_eq hfits] at hcolumn
      have hscan := ih h' (by
        rw [hrest, hcolumn, List.length_take, length_drop_min]
        exact hsteady)
      rw [hrest] at hscan
      rw [hresult, hcolumn]
      generalize m.rest s.begin = items at *
      have hsplit : items.take c.chunkSize ++ items.drop c.chunkSize = items := List.take_append_drop _ _
      have hpos : 0 < items.length := List.length_pos_of_ne_nil hne
      have hlen : 0 < (items.take c.chunkSize).length := by
        rw [List.length_take]
        exact lt_min c.pos hpos
      refine ⟨.cons ⟨List.ne_nil_of_length_pos hlen, List.length_take_le _ _⟩ hscan.sized, ?_,
        fun hin => ?_, fun hlt => ?_⟩
      · rw [List.flatMap_cons]
        conv_rhs => rw [← hsplit]
        exact (List.prefix_append_right_inj _).mpr hscan.once
      · have hall := hscan.all ((List.mem_cons.mp hin).resolve_left nofun)
        rw [List.flatMap_cons, hall]
        exact hsplit
      · refine List.mem_cons_of_mem _ (hscan.ends ?_)
        have hone := c.pos
        rw [List.countP_cons_of_pos rfl] at hlt
        rw [List.length_drop]
        omega

end

/-- **The scan is right** if and only if each chunk is as large as the last tuple set, or as large as
what is left. -/
theorem mapScan_iff (m : PDBMap K V) (chunkSize : ℕ) (calls : List ScanCall) :
    Scans m.entries calls (results calls (create m chunkSize)) ↔ Steady 0 m.entries.length calls := by
  have hat := create_at m chunkSize
  have hrest : m.rest (create m chunkSize).begin = m.entries := (PDBMap.placed_begin m).2
  constructor
  · intro h
    have hsteady := steady_of_sized calls hat h.sized
    rw [hrest] at hsteady
    exact hsteady
  · intro h
    have hscan := scans_of_steady calls hat (by rw [hrest]; exact h)
    rw [hrest] at hscan
    exact hscan

/-! ## Examples -/

instance decidableSteady : (limit left : ℕ) → (calls : List ScanCall) → Decidable (Steady limit left calls)
  | _, _, [] => .isTrue trivial
  | limit, left, c :: calls =>
    have := decidableSteady limit left calls
    have := decidableSteady 0 left calls
    have := decidableSteady (min c.chunkSize left) (left - min c.chunkSize left) calls
    inferInstanceAs (Decidable (if left = 0 then Steady limit left calls
      else if ∃ i < min c.chunkSize left, c.fail i = true then Steady 0 left calls
      else (limit ≤ c.chunkSize ∨ left ≤ c.chunkSize) ∧
        Steady (min c.chunkSize left) (left - min c.chunkSize left) calls))

/-- the keys `0` to `3`, in a table of eight slots -/
def fourKeys : PDBMap ℕ ℕ :=
  ⟨⟨⟨24, 24, 8, ArrayLayout.threeWords_pos⟩, 4, 8, 5,
    fun i => ⟨if i < 4 then Hasher.hash i else UNUSED, i, 10 * i⟩⟩⟩

/-- a chunk of two, a call that fails, and a larger chunk that reaches the end -/
theorem mapScan_iff_fourKeys : ∃ calls : List ScanCall, calls.length = 4 ∧
    Scans fourKeys.entries calls (results calls (create fourKeys 1)) :=
  ⟨[⟨2, fun _ => false, by decide⟩, ⟨2, fun i => i == 1, by decide⟩, ⟨3, fun _ => false, by decide⟩,
      ⟨1, fun _ => false, by decide⟩], rfl,
    (mapScan_iff fourKeys 1 _).mpr (by decide +kernel)⟩

/-- **A smaller chunk**: an object of the tuple set before comes back again -/
theorem mapScan_not_always : ¬ ∀ (m : PDBMap ℕ ℕ) (chunkSize : ℕ) (calls : List ScanCall),
    Scans m.entries calls (results calls (create m chunkSize)) := by
  intro hall
  have hscan := hall fourKeys 2 [⟨2, fun _ => false, by decide⟩, ⟨1, fun _ => false, by decide⟩]
  have hrun : results [⟨2, fun _ => false, by decide⟩, ⟨1, fun _ => false, by decide⟩] (create fourKeys 2) =
      [.tupleSet [(0, 0), (1, 10)], .tupleSet [(2, 20), (1, 10)]] := by decide +kernel
  rw [hrun] at hscan
  obtain ⟨-, htail⟩ := List.forall₂_cons.mp hscan.sized
  obtain ⟨⟨-, hle⟩, -⟩ := List.forall₂_cons.mp htail
  exact absurd hle (by decide)

end MapTupleSetIterator
end Netsdb
