import Netsdb.Conv2d.ImageBlock
import Mathlib.Data.List.Induction

/-!
# One row, cut into chunks (`ImageToChunks.h`, `KernelToChunks.h`)

Both classes push the values of a row to a chunk, and begin the next chunk when one is full.  The last
column of the row, which the bias or a 1 goes to, is pushed behind the loops.

* `RowChunks.push`, `next`, `finish`   as in the two loops;
* `run_spec`       the chunks of a row, and the one that is not finished;
* `finish_spec`    the last column comes to the row where the last chunk is not full; else it comes to
                   the row that the new chunk is made with.
-/

set_option linter.unusedSectionVars false

namespace Netsdb.Conv2d
variable {V : Type}

/-- the chunks that are pushed, the current one and its number -/
structure RowChunks (V : Type) where
  result : List (ImageChunk V)
  chunk : ImageChunk V
  yIndex : ℕ

namespace RowChunks

/-- a chunk to which these values have been pushed -/
def make (blockY blockRow blockRowStart yIndex : ℕ) (chunk : List V) : ImageChunk V :=
  { blockRow, yIndex, chunk, ySize := blockY, blockRowStart }

def start (blockY blockRow blockRowStart : ℕ) : RowChunks V :=
  { result := [], chunk := make blockY blockRow blockRowStart 0 [], yIndex := 0 }

/-- the current chunk is pushed -/
def next (blockY blockRow blockRowStart : ℕ) (s : RowChunks V) : RowChunks V :=
  { result := s.result ++ [s.chunk]
    chunk := make blockY blockRow blockRowStart (s.yIndex + 1) []
    yIndex := s.yIndex + 1 }

def add (s : RowChunks V) (v : V) : RowChunks V :=
  { s with chunk := { s.chunk with chunk := s.chunk.chunk ++ [v] } }

/-- the body of the innermost loop -/
def push (blockY blockRow blockRowStart : ℕ) (s : RowChunks V) (v : V) : RowChunks V :=
  if 0 < s.chunk.chunk.length ∧ s.chunk.chunk.length % blockY = 0 then
    (s.next blockY blockRow blockRowStart).add v
  else s.add v

/-- behind the loops; `blockRow` is the one of a chunk that is begun here -/
def finish (blockY blockRow blockRowStart : ℕ) (s : RowChunks V) (v : V) : List (ImageChunk V) :=
  let s := if s.chunk.chunk.length % blockY = 0 then s.next blockY blockRow blockRowStart else s
  (s.add v).result ++ [(s.add v).chunk]

end RowChunks

/-! ## The chunks of a row -/

/-- part `j` of a list -/
def window {α : Type} (size : ℕ) (l : List α) (j : ℕ) : List α := (l.drop (j * size)).take size

theorem window_append {α : Type} {size j : ℕ} {l l' : List α} (h : (j + 1) * size ≤ l.length) :
    window size (l ++ l') j = window size l j := by
  rw [Nat.succ_mul] at h
  rw [window, window, List.drop_append_of_le_length (by omega), List.take_append_of_le_length]
  rw [List.length_drop]
  omega

theorem window_range {α : Type} (size n j : ℕ) (f : ℕ → α) :
    window size ((List.range n).map f) j =
      (List.range (min size (n - j * size))).map fun y => f (j * size + y) := by
  refine List.ext_getElem? fun y => ?_
  rw [window, List.getElem?_take, List.getElem?_drop, List.getElem?_map, List.getElem?_map]
  by_cases hy : y < size
  · rw [if_pos hy]
    by_cases hn : j * size + y < n
    · rw [List.getElem?_range hn, List.getElem?_range (by omega)]
      rfl
    · rw [List.getElem?_eq_none (by rw [List.length_range]; omega),
        List.getElem?_eq_none (by rw [List.length_range]; omega)]
      rfl
  · rw [if_neg hy, List.getElem?_eq_none (by rw [List.length_range]; omega)]
    rfl

/-- the chunk with part `j` of a row -/
def piece (blockY blockRow blockRowStart : ℕ) (l : List V) (j : ℕ) : ImageChunk V :=
  RowChunks.make blockY blockRow blockRowStart j (window blockY l j)

section
variable {blockY blockRow blockRowStart : ℕ} {s : RowChunks V} {l : List V} {v : V}

/-- behind the loops over the values `l` -/
structure Pushed (blockY blockRow blockRowStart : ℕ) (l : List V) (s : RowChunks V) : Prop where
  yIndex : s.yIndex = (l.length - 1) / blockY
  result : s.result = (List.range s.yIndex).map (piece blockY blockRow blockRowStart l)
  chunk : s.chunk = RowChunks.make blockY blockRow blockRowStart s.yIndex (l.drop (s.yIndex * blockY))

/-- how much of the current chunk there is -/
theorem Pushed.bounds (h : Pushed blockY blockRow blockRowStart l s) (hpos : 0 < blockY) :
    s.yIndex * blockY ≤ l.length ∧ s.chunk.chunk.length = l.length - s.yIndex * blockY ∧
      s.chunk.chunk.length ≤ blockY ∧ (0 < l.length → 0 < s.chunk.chunk.length) := by
  have hlen : s.chunk.chunk.length = l.length - s.yIndex * blockY := by
    rw [h.chunk]
    exact List.length_drop
  have hy := Nat.div_mul_le_self (l.length - 1) blockY
  have hy' := Nat.lt_div_mul_add (a := l.length - 1) hpos
  rw [← h.yIndex] at hy hy'
  omega

/-- the pieces that are full do not change -/
theorem pieces_append {n : ℕ} (h : n * blockY ≤ l.length) (l' : List V) :
    (List.range n).map (piece blockY blockRow blockRowStart (l ++ l')) =
      (List.range n).map (piece blockY blockRow blockRowStart l) := by
  refine List.map_congr_left fun j hj => ?_
  have hle : (j + 1) * blockY ≤ l.length :=
    (Nat.mul_le_mul_right _ (List.mem_range.mp hj)).trans h
  rw [piece, piece, window_append hle]

/-- the current chunk is full -/
theorem Pushed.full (h : Pushed blockY blockRow blockRowStart l s) (hpos : 0 < blockY)
    (hl : 0 < l.length) (hmod : s.chunk.chunk.length % blockY = 0) :
    l.length = (s.yIndex + 1) * blockY ∧
      s.chunk = piece blockY blockRow blockRowStart l s.yIndex := by
  obtain ⟨hle, hlen, hmax, hnonempty⟩ := h.bounds hpos
  have heq : s.chunk.chunk.length = blockY :=
    le_antisymm hmax (Nat.le_of_dvd (hnonempty hl) (Nat.dvd_of_mod_eq_zero hmod))
  refine ⟨by rw [Nat.succ_mul]; omega, ?_⟩
  rw [h.chunk, piece, window, List.take_of_length_le]
  rw [List.length_drop]
  omega

theorem Pushed.push (h : Pushed blockY blockRow blockRowStart l s) (hpos : 0 < blockY) (v : V) :
    Pushed blockY blockRow blockRowStart (l ++ [v]) (s.push blockY blockRow blockRowStart v) := by
  obtain ⟨hle, hlen, hmax, hnonempty⟩ := h.bounds hpos
  unfold RowChunks.push
  split
  · next hfull =>
    have hl : 0 < l.length := by omega
    obtain ⟨hall, hchunk⟩ := h.full hpos hl hfull.2
    refine ⟨?_, ?_, ?_⟩
    · show s.yIndex + 1 = _
      rw [List.length_append, hall]
      exact (Nat.mul_div_cancel _ hpos).symm
    · show s.result ++ [s.chunk] = (List.range (s.yIndex + 1)).map _
      rw [pieces_append hall.ge, List.range_succ, List.map_append, ← h.result, hchunk]
      rfl
    · show RowChunks.make blockY blockRow blockRowStart (s.yIndex + 1) [v] =
        RowChunks.make _ _ _ _ ((l ++ [v]).drop ((s.yIndex + 1) * blockY))
      rw [← hall, List.drop_left]
      rfl
  · next hnot =>
    have hlt : s.chunk.chunk.length < blockY := by
      refine lt_of_le_of_ne hmax fun heq => hnot ⟨by omega, by rw [heq, Nat.mod_self]⟩
    refine ⟨?_, ?_, ?_⟩
    · show s.yIndex = _
      rw [List.length_append, List.length_singleton, Nat.add_sub_cancel]
      exact ((Nat.div_eq_iff hpos).mpr ⟨hle, by omega⟩).symm
    · show s.result = (List.range s.yIndex).map _
      rw [pieces_append hle, h.result]
    · show { s.chunk with chunk := s.chunk.chunk ++ [v] } = _
      rw [h.chunk]
      show _ = RowChunks.make _ _ _ s.yIndex ((l ++ [v]).drop (s.yIndex * blockY))
      rw [List.drop_append_of_le_length hle]
      rfl

theorem pushed_run (hpos : 0 < blockY) (blockRow blockRowStart : ℕ) (l : List V) :
    Pushed blockY blockRow blockRowStart l
      (l.foldl (RowChunks.push blockY blockRow blockRowStart)
        (RowChunks.start blockY blockRow blockRowStart)) := by
  induction l using List.reverseRec with
  | nil =>
    refine ⟨(Nat.zero_div _).symm, rfl, ?_⟩
    rw [List.drop_nil]
    rfl
  | append_singleton l v ih =>
    rw [List.foldl_append]
    exact ih.push hpos v

/-- the last chunk has room for the last column -/
theorem Pushed.finish_fits (h : Pushed blockY blockRow blockRowStart l s) (hpos : 0 < blockY)
    (hmod : l.length % blockY ≠ 0) (blockRow' : ℕ) (v : V) :
    s.finish blockY blockRow' blockRowStart v =
      (List.range (l.length / blockY + 1)).map (piece blockY blockRow blockRowStart (l ++ [v])) := by
  obtain ⟨hle, hlen, hmax, hnonempty⟩ := h.bounds hpos
  have hl : 0 < l.length := Nat.pos_of_ne_zero fun h0 => hmod (by rw [h0, Nat.zero_mod])
  have hnot : ¬ s.chunk.chunk.length % blockY = 0 := fun hfull =>
    hmod (by rw [(h.full hpos hl hfull).1, Nat.mul_mod_left])
  have hlt : s.chunk.chunk.length < blockY :=
    lt_of_le_of_ne hmax fun heq => hnot (by rw [heq, Nat.mod_self])
  have hy : l.length / blockY = s.yIndex := (Nat.div_eq_iff hpos).mpr ⟨hle, by omega⟩
  rw [RowChunks.finish, if_neg hnot, hy, List.range_succ, List.map_append, pieces_append hle, ← h.result]
  show s.result ++ [{ s.chunk with chunk := s.chunk.chunk ++ [v] }] = s.result ++ [piece _ _ _ _ _]
  rw [h.chunk, piece, window, List.take_of_length_le, List.drop_append_of_le_length hle]
  · rfl
  · rw [List.length_drop, List.length_append, List.length_singleton]
    omega

/-- the last column comes to a chunk of its own -/
theorem Pushed.finish_full (h : Pushed blockY blockRow blockRowStart l s) (hpos : 0 < blockY)
    (hl : 0 < l.length) (hmod : l.length % blockY = 0) (blockRow' : ℕ) (v : V) :
    s.finish blockY blockRow' blockRowStart v =
      (List.range (l.length / blockY)).map (piece blockY blockRow blockRowStart (l ++ [v])) ++
        [RowChunks.make blockY blockRow' blockRowStart (l.length / blockY) [v]] := by
  obtain ⟨hle, hlen, hmax, hnonempty⟩ := h.bounds hpos
  have hfull : s.chunk.chunk.length % blockY = 0 := by
    rw [hlen, Nat.mul_comm]
    exact (Nat.sub_mul_mod (Nat.mul_comm _ _ ▸ hle)).trans hmod
  obtain ⟨hall, hchunk⟩ := h.full hpos hl hfull
  have hy : l.length / blockY = s.yIndex + 1 := by rw [hall, Nat.mul_div_cancel _ hpos]
  rw [RowChunks.finish, if_pos hfull, hy, pieces_append hall.ge, List.range_succ, List.map_append,
    ← h.result]
  show (s.result ++ [s.chunk]) ++ [RowChunks.make _ _ _ _ ([] ++ [v])] = _
  rw [hchunk]
  rfl

/-- a row without values -/
theorem finish_empty (blockY blockRow blockRowStart blockRow' : ℕ) (v : V) :
    (RowChunks.start blockY blockRow blockRowStart).finish blockY blockRow' blockRowStart v =
      [RowChunks.make blockY blockRow blockRowStart 0 [],
        RowChunks.make blockY blockRow' blockRowStart 1 [v]] := by
  rw [RowChunks.finish]
  exact congrArg (fun s : RowChunks V => (s.add v).result ++ [(s.add v).chunk])
    (if_pos (Nat.zero_mod _))

end
end Netsdb.Conv2d
