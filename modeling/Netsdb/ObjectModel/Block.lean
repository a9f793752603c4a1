import Mathlib.Data.List.GetD
import Mathlib.Data.List.Perm.Basic
import Mathlib.Data.List.Nodup
import Netsdb.Lib.Buckets
import Netsdb.Lib.Reach
import Netsdb.Lib.Tiles
import Netsdb.ObjectModel.Allocator

/-!
# The chunks of the active block

The objects of one block over any sequence of `getRAM` and `freeRAM` calls, with the policy
switched between `defaultAllocator` and `noReuseAllocator` at will.

* `BlockRep`             the representation invariant: live chunks and free chunks tile the used
                         part of the block, the free lists are sorted by `log2` of the size, and
                         the reference count is the number of live objects;
* `Allocator.getRAM_cases`  all that `getRAM` can do;
* `BlockState.Fine`      the steps that keep the invariant: `freeRAM` of an object that
                         `contains` accepts, `getRAM` while the count fits an `unsigned`;
* `blockRep_of_reach`    the invariant over whole runs;
* `blockRep_not_always`  an empty object behind the last byte of the block is never given back.
-/

namespace Netsdb
open Machine

/-! ## sizes -/

theorem bytesNeeded_eq {howMuch : Nat} (h : roundedRequest howMuch < 2^32) :
    bytesNeeded howMuch = roundedRequest howMuch := by
  unfold roundedRequest at *
  have hb : u32 (chunkHeaderSize + howMuch) = chunkHeaderSize + howMuch :=
    u32_of_lt (by omega)
  simp only [bytesNeeded, hb]
  split
  · rw [u32_of_lt (by omega)]
    omega
  · omega

theorem bytesNeeded_lt (howMuch : Nat) : bytesNeeded howMuch < 2^32 := by
  simp only [bytesNeeded]
  split
  · exact u32_lt _
  · exact u32_lt _

/-- the rounded request is a multiple of four, also where it wraps around -/
theorem four_dvd_bytesNeeded (howMuch : Nat) : 4 ∣ bytesNeeded howMuch := by
  have hdvd : ∀ b : Nat, 4 ∣ if b % 4 ≠ 0 then u32 (b + (4 - b % 4)) else b := by
    intro b
    unfold u32
    split <;> omega
  exact hdvd _

theorem roundedRequest_ge (howMuch : Nat) : howMuch + chunkHeaderSize ≤ roundedRequest howMuch := by
  unfold roundedRequest chunkHeaderSize
  omega

theorem leadingZeros_index {x : Nat} (h : x < 2^32) : 31 - leadingZeros x = Nat.log2 x := by
  have h1 : Nat.log2 x < 32 := by
    by_cases e : x = 0
    · subst e
      decide
    · exact (Nat.log2_lt e).mpr h
  unfold leadingZeros
  omega

theorem log2_lt_32 {x : Nat} (h : x < 2^32) : Nat.log2 x < 32 := by
  by_cases e : x = 0
  · subst e
    decide
  · exact (Nat.log2_lt e).mpr h

/-! ## the search for a free chunk -/

theorem fitFrom_some {fits : Nat → Bool} {n j : Nat} (h : fitFrom fits n = some j) :
    j < n ∧ fits j = true := by
  induction n with
  | zero => cases h
  | succ n ih =>
    unfold fitFrom at h
    split at h
    · cases h
      exact ⟨by omega, by assumption⟩
    · have := ih h
      exact ⟨by omega, this.2⟩

theorem findChunk_some {size : Nat → Nat} {bytes : Nat} {chunks : Nat → List Nat}
    {n i k j : Nat} (h : findChunk size bytes chunks n i = some (k, j)) :
    k < i + n ∧ j < (chunks k).length ∧ bytes ≤ size ((chunks k).getD j 0) := by
  induction n generalizing i with
  | zero => cases h
  | succ n ih =>
    unfold findChunk at h
    split at h
    · next j' hj =>
      cases h
      have hf := fitFrom_some hj
      exact ⟨by omega, hf.1, by simpa using hf.2⟩
    · have := ih h
      exact ⟨by omega, this.2⟩

/-! ## what `getRAM` can do -/

/-- a policy that counts references -/
def AllocatorPolicy.Counts (p : AllocatorPolicy) : Prop := p ≠ .noReferenceCountAllocator

instance (p : AllocatorPolicy) : Decidable p.Counts := inferInstanceAs (Decidable (_ ≠ _))

/-- the state after `bytes` bytes have been carved out behind `LAST_USED` -/
def Allocator.carved (a : Allocator) (bytes : Nat) : Allocator :=
  let w := a.myState.activeRAM
  { a with
    lastUsed := Function.update a.lastUsed w (a.lastUsed w + bytes)
    chunkSize := Function.update a.chunkSize (a.lastUsed w + w) bytes
    refCount := Function.update a.refCount w (u32 (a.refCount w + 1)) }

/-- the state after chunk `j` of list `i` has been handed out again -/
def Allocator.reused (a : Allocator) (i j : Nat) : Allocator :=
  (a.setChunks i ((a.myState.chunks i).eraseIdx j)).incRef a.myState.activeRAM

namespace Allocator
variable {a : Allocator}

theorem carve_cases (a : Allocator) (bytes : Nat) :
    (a.lastUsed a.myState.activeRAM + bytes ≤ a.myState.numBytes ∧
      a.carve bytes = (.ret (a.myState.activeRAM + a.lastUsed a.myState.activeRAM +
        chunkHeaderSize), a.carved bytes)) ∨
    (∃ r, (∀ p, r ≠ .ret p) ∧ a.carve bytes = (r, a)) := by
  by_cases hfit : a.lastUsed a.myState.activeRAM + bytes > a.myState.numBytes
  · right
    refine ⟨if a.myState.throwException then .notEnoughSpace else .nullptr, ?_, ?_⟩
    · intro p
      split <;> simp
    · simp only [carve, if_pos hfit]
  · left
    refine ⟨by omega, ?_⟩
    simp only [carve, if_neg hfit, Nat.add_comm a.myState.activeRAM]
    rfl

/-- **All that `getRAM` can do**: hand out a free chunk that is large enough, carve out a new
chunk, or fail and change nothing. -/
theorem getRAM_cases (a : Allocator) (howMuch : Nat) :
    (a.policy ≠ .noReuseAllocator ∧ ∃ i j, i < 32 ∧ j < (a.myState.chunks i).length ∧
      bytesNeeded howMuch ≤ a.chunkSize ((a.myState.chunks i).getD j 0) ∧
      a.getRAM howMuch =
        (.ret ((a.myState.chunks i).getD j 0 + chunkHeaderSize), a.reused i j)) ∨
    (a.lastUsed a.myState.activeRAM + bytesNeeded howMuch ≤ a.myState.numBytes ∧
      a.getRAM howMuch = (.ret (a.myState.activeRAM + a.lastUsed a.myState.activeRAM +
        chunkHeaderSize), a.carved (bytesNeeded howMuch))) ∨
    (∃ r, (∀ p, r ≠ .ret p) ∧ a.getRAM howMuch = (r, a)) := by
  have hdef : (a.policy ≠ .noReuseAllocator ∧ a.defaultGetRAM howMuch = a.getRAM howMuch) ∨
      a.carve (bytesNeeded howMuch) = a.getRAM howMuch := by
    unfold getRAM fastGetRAM
    cases a.policy
    · exact Or.inl ⟨by decide, rfl⟩
    · exact Or.inr rfl
    · exact Or.inl ⟨by decide, rfl⟩
  rcases hdef with ⟨hp, hd⟩ | hd
  · rw [← hd]
    simp only [defaultGetRAM, leadingZeros_index (bytesNeeded_lt howMuch)]
    split
    · next i j hf =>
      left
      obtain ⟨h1, h2, h3⟩ := findChunk_some hf
      have := log2_lt_32 (bytesNeeded_lt howMuch)
      exact ⟨hp, i, j, by omega, h2, h3, rfl⟩
    · exact Or.inr (carve_cases a _)
  · rw [← hd]
    exact Or.inr (carve_cases a _)

/-- a failing `getRAM` leaves the allocator as it was -/
theorem getRAM_fail {howMuch : Nat} (hf : ∀ p, (a.getRAM howMuch).1 ≠ .ret p) :
    (a.getRAM howMuch).2 = a := by
  rcases getRAM_cases a howMuch with ⟨-, i, j, -, -, -, e⟩ | ⟨-, e⟩ | ⟨r, -, e⟩
  · rw [e] at hf
    exact absurd rfl (hf _)
  · rw [e] at hf
    exact absurd rfl (hf _)
  · rw [e]

/-- the chunks in the free lists -/
def freeChunks (a : Allocator) : List Nat := buckets 32 a.myState.chunks

/-- a chunk with its stored size -/
def chunkSeg (a : Allocator) (c : Nat) : Seg := ⟨c, a.chunkSize c⟩

/-- neither a free chunk nor the rest of the block can hold the request -/
def Full (a : Allocator) (howMuch : Nat) : Prop :=
  (a.policy ≠ .noReuseAllocator → ∀ c ∈ a.freeChunks, a.chunkSize c < bytesNeeded howMuch) ∧
  a.myState.numBytes < a.lastUsed a.myState.activeRAM + bytesNeeded howMuch

instance (howMuch : Nat) : Decidable (a.Full howMuch) := inferInstanceAs (Decidable (_ ∧ _))

theorem getRAM_full {howMuch : Nat} (hf : a.Full howMuch) :
    ∃ r, (∀ p, r ≠ .ret p) ∧ a.getRAM howMuch = (r, a) := by
  rcases getRAM_cases a howMuch with ⟨hp, i, j, hi, hj, hfit, -⟩ | ⟨hfit, -⟩ | hr
  · have hmem : (a.myState.chunks i).getD j 0 ∈ a.freeChunks := by
      refine mem_buckets.mpr ⟨i, hi, ?_⟩
      rw [List.getD_eq_getElem _ _ hj]
      exact List.getElem_mem hj
    have := hf.1 hp _ hmem
    omega
  · have := hf.2
    omega
  · exact hr

/-- freeing an object of the active block -/
theorem freeRAM_contained {here : Nat} (hp : a.policy.Counts) (hc : a.contains here = true) :
    a.freeRAM here =
      (a.setChunks (31 - leadingZeros (a.chunkSize (here - chunkHeaderSize)))
        (a.myState.chunks (31 - leadingZeros (a.chunkSize (here - chunkHeaderSize))) ++
          [here - chunkHeaderSize])).decRef a.myState.activeRAM := by
  have hd : a.freeRAM here = a.defaultFreeRAM here := by
    unfold freeRAM
    cases e : a.policy with
    | defaultAllocator => rfl
    | noReuseAllocator => rfl
    | noReferenceCountAllocator => exact absurd e hp
  rw [hd]
  unfold defaultFreeRAM
  rw [if_pos hc]

end Allocator

/-! ## runs on one block -/

/-- the allocator and the objects it has handed out: address and `howMuch` -/
structure BlockState where
  alloc : Allocator
  live : List (Nat × Nat)

inductive BlockOp
  | getRAM (howMuch : Nat)
  | freeRAM (here : Nat)
  | setPolicy (toMe : AllocatorPolicy)
deriving DecidableEq, Repr

namespace BlockState

/-- remember the object that `getRAM` has returned -/
def afterGetRAM (s : BlockState) (howMuch : Nat) : RamResult × Allocator → BlockState
  | (.ret p, a) => ⟨a, (p, howMuch) :: s.live⟩
  | (_, a) => ⟨a, s.live⟩

/-- the callers ask for less than `2^32` bytes, free live objects only and keep to the two
policies that count references -/
def step (s : BlockState) : BlockOp → Option BlockState
  | .getRAM howMuch =>
    if s.alloc.policy.Counts ∧ roundedRequest howMuch < 2^32 then
      some (s.afterGetRAM howMuch (s.alloc.getRAM howMuch))
    else none
  | .freeRAM here =>
    if s.alloc.policy.Counts ∧ here ∈ s.live.map Prod.fst then
      some ⟨s.alloc.freeRAM here, s.live.eraseP fun o => o.1 = here⟩
    else none
  | .setPolicy toMe => if toMe.Counts then some { s with alloc := s.alloc.setPolicy toMe } else none

/-- the steps that keep the invariant: the count of live objects stays below `2^32`, and an
object that is freed lies inside the block, so that `contains` accepts its address -/
def Fine (s : BlockState) : BlockOp → Prop
  | .getRAM howMuch => s.live.length + 1 < 2^32 ∨ s.alloc.Full howMuch
  | .freeRAM here => s.alloc.contains here = true
  | .setPolicy _ => True

instance (s : BlockState) (op : BlockOp) : Decidable (s.Fine op) :=
  match op with
  | .getRAM _ => inferInstanceAs (Decidable (_ ∨ _))
  | .freeRAM _ => inferInstanceAs (Decidable (_ = _))
  | .setPolicy _ => inferInstanceAs (Decidable True)

/-- the chunks of the live objects -/
def liveChunks (s : BlockState) : List Nat := s.live.map fun o => o.1 - chunkHeaderSize

end BlockState

/-- the representation invariant of the active block -/
structure BlockRep (s : BlockState) : Prop where
  header_le : headerSize ≤ s.alloc.lastUsed s.alloc.myState.activeRAM
  le_numBytes : s.alloc.lastUsed s.alloc.myState.activeRAM ≤ s.alloc.myState.numBytes
  tiles : Tiles (s.alloc.myState.activeRAM + headerSize)
    (s.alloc.myState.activeRAM + s.alloc.lastUsed s.alloc.myState.activeRAM)
    ((s.liveChunks ++ s.alloc.freeChunks).map s.alloc.chunkSeg)
  sizes : ∀ c ∈ s.liveChunks, s.alloc.chunkSize c < 2^32
  bucket : ∀ i, ∀ c ∈ s.alloc.myState.chunks i,
    i = Nat.log2 (s.alloc.chunkSize c) ∧ s.alloc.chunkSize c < 2^32
  refs : s.alloc.refCount s.alloc.myState.activeRAM = s.live.length
  usable : ∀ o ∈ s.live, ∃ c, o.1 = c + chunkHeaderSize ∧
    o.1 + o.2 ≤ c + s.alloc.chunkSize c

namespace BlockState
variable {s t : BlockState}

/-! ## a new block -/

theorem blockRep_setupBlock {a a' : Allocator} {place numBytesIn : Nat} {thr : Bool}
    (h : a.setupBlock place numBytesIn thr = some a') : BlockRep ⟨a', []⟩ := by
  unfold Allocator.setupBlock at h
  split at h
  · cases h
  split at h
  · cases h
  next hn _ =>
  cases h
  refine ⟨?_, ?_, ?_, ?_, ?_, ?_, ?_⟩
  · simp
  · simpa using hn
  · have hfree : buckets 32 (fun _ => ([] : List Nat)) = [] := by
      simp [buckets]
    simp only [liveChunks, Allocator.freeChunks, hfree, List.map_nil, List.append_nil,
      Function.update_self]
    exact Tiles.nil _
  · simp [liveChunks]
  · simp
  · simp
  · simp

/-! ## the two ways to hand out a chunk -/

/-- a free chunk becomes a live one -/
theorem blockRep_reused (h : BlockRep s) {i j howMuch : Nat} (hi : i < 32)
    (hj : j < (s.alloc.myState.chunks i).length)
    (hfit : roundedRequest howMuch ≤ s.alloc.chunkSize ((s.alloc.myState.chunks i).getD j 0))
    (hlen : s.live.length + 1 < 2^32) :
    BlockRep ⟨s.alloc.reused i j,
      ((s.alloc.myState.chunks i).getD j 0 + chunkHeaderSize, howMuch) :: s.live⟩ := by
  obtain ⟨c, hc⟩ : ∃ c, (s.alloc.myState.chunks i).getD j 0 = c := ⟨_, rfl⟩
  have hmem : c ∈ s.alloc.myState.chunks i := by
    rw [← hc, List.getD_eq_getElem _ _ hj]
    exact List.getElem_mem hj
  have htake : (s.alloc.myState.chunks i).Perm (c :: (s.alloc.myState.chunks i).eraseIdx j) := by
    rw [← hc, List.getD_eq_getElem _ _ hj]
    exact (List.getElem_cons_eraseIdx_perm hj).symm
  have hall : (s.liveChunks ++ s.alloc.freeChunks).Perm
      ((c :: s.liveChunks) ++ (s.alloc.reused i j).freeChunks) :=
    ((buckets_update_perm hi htake).append_left _).trans List.perm_middle
  have hlive : (⟨s.alloc.reused i j, (c + chunkHeaderSize, howMuch) :: s.live⟩ :
      BlockState).liveChunks = c :: s.liveChunks := by
    simp [liveChunks]
  rw [hc] at hfit ⊢
  refine ⟨h.header_le, h.le_numBytes, ?_, ?_, ?_, ?_, ?_⟩
  · rw [hlive]
    exact h.tiles.perm (hall.map _)
  · rw [hlive]
    intro d hd
    rcases List.mem_cons.mp hd with rfl | hd
    · exact (h.bucket i d hmem).2
    · exact h.sizes d hd
  · intro k d hd
    refine h.bucket k d ?_
    by_cases e : k = i
    · subst e
      have hd' : d ∈ (s.alloc.myState.chunks k).eraseIdx j := by
        simpa [Allocator.reused, Allocator.setChunks, Allocator.incRef, Allocator.setRefCount]
          using hd
      exact List.mem_of_mem_eraseIdx hd'
    · simpa [Allocator.reused, Allocator.setChunks, Allocator.incRef, Allocator.setRefCount, e]
        using hd
  · have := h.refs
    simp [Allocator.reused, Allocator.setChunks, Allocator.incRef, Allocator.setRefCount, this,
      u32_of_lt hlen]
  · intro o ho
    rcases List.mem_cons.mp ho with rfl | ho
    · have := roundedRequest_ge howMuch
      exact ⟨c, rfl, by show c + chunkHeaderSize + howMuch ≤ c + s.alloc.chunkSize c; omega⟩
    · exact h.usable o ho

/-- every chunk of the block starts before the end of the used part -/
theorem chunk_lt (h : BlockRep s) {c : Nat} (hc : c ∈ s.liveChunks ++ s.alloc.freeChunks) :
    c < s.alloc.myState.activeRAM + s.alloc.lastUsed s.alloc.myState.activeRAM := by
  have := h.tiles.inside _ (List.mem_map_of_mem hc)
  unfold Allocator.chunkSeg at this
  simp only at this
  omega

theorem mem_freeChunks_of_bucket (h : BlockRep s) {i c : Nat} (hc : c ∈ s.alloc.myState.chunks i) :
    c ∈ s.alloc.freeChunks := by
  obtain ⟨e, hlt⟩ := h.bucket i c hc
  exact mem_buckets.mpr ⟨i, e ▸ log2_lt_32 hlt, hc⟩

/-- a new chunk behind the used part -/
theorem blockRep_carved (h : BlockRep s) {howMuch : Nat} (hlt : roundedRequest howMuch < 2^32)
    (hfit : s.alloc.lastUsed s.alloc.myState.activeRAM + roundedRequest howMuch ≤
      s.alloc.myState.numBytes) (hlen : s.live.length + 1 < 2^32) :
    BlockRep ⟨s.alloc.carved (roundedRequest howMuch),
      (s.alloc.myState.activeRAM + s.alloc.lastUsed s.alloc.myState.activeRAM + chunkHeaderSize,
        howMuch) :: s.live⟩ := by
  obtain ⟨w, hw⟩ : ∃ w, s.alloc.myState.activeRAM = w := ⟨_, rfl⟩
  obtain ⟨c, hc⟩ : ∃ c, w + s.alloc.lastUsed w = c := ⟨_, rfl⟩
  have hge := roundedRequest_ge howMuch
  have hchunk : ∀ d, (s.alloc.carved (roundedRequest howMuch)).chunkSize d =
      if d = c then roundedRequest howMuch else s.alloc.chunkSize d := by
    intro d
    rw [← hc, ← hw, Nat.add_comm]
    exact Function.update_apply _ _ _ _
  have hold : ∀ d ∈ s.liveChunks ++ s.alloc.freeChunks,
      (s.alloc.carved (roundedRequest howMuch)).chunkSize d = s.alloc.chunkSize d := by
    intro d hd
    have := chunk_lt h hd
    rw [hchunk, if_neg (by subst hc hw; omega)]
  have hlive : (⟨s.alloc.carved (roundedRequest howMuch), (c + chunkHeaderSize, howMuch) ::
      s.live⟩ : BlockState).liveChunks = c :: s.liveChunks := by
    simp [liveChunks]
  have hused : (s.alloc.carved (roundedRequest howMuch)).lastUsed w =
      s.alloc.lastUsed w + roundedRequest howMuch := by
    rw [← hw]
    exact Function.update_self _ _ _
  have hhead := h.header_le
  have htiles := h.tiles
  simp only [hw, hc] at hfit hhead htiles ⊢
  refine ⟨?_, ?_, ?_, ?_, ?_, ?_, ?_⟩
  · show headerSize ≤ (s.alloc.carved (roundedRequest howMuch)).lastUsed s.alloc.myState.activeRAM
    rw [hw, hused]
    omega
  · show (s.alloc.carved (roundedRequest howMuch)).lastUsed s.alloc.myState.activeRAM ≤
      s.alloc.myState.numBytes
    rw [hw, hused]
    exact hfit
  · have hnew : ((c :: s.liveChunks) ++ s.alloc.freeChunks).map
        (s.alloc.carved (roundedRequest howMuch)).chunkSeg =
        ⟨c, roundedRequest howMuch⟩ ::
          (s.liveChunks ++ s.alloc.freeChunks).map s.alloc.chunkSeg := by
      rw [List.cons_append, List.map_cons]
      congr 1
      · simp only [Allocator.chunkSeg, hchunk, if_true]
      · refine List.map_congr_left fun d hd => ?_
        simp only [Allocator.chunkSeg, hold d hd]
    have hext := htiles.extend (by omega) (show 0 < roundedRequest howMuch by
      unfold chunkHeaderSize at hge
      omega)
    rw [hlive]
    show Tiles (s.alloc.myState.activeRAM + headerSize) (s.alloc.myState.activeRAM +
      (s.alloc.carved (roundedRequest howMuch)).lastUsed s.alloc.myState.activeRAM)
      (((c :: s.liveChunks) ++ s.alloc.freeChunks).map _)
    rw [hnew, hw, hused, ← Nat.add_assoc, hc]
    exact hext
  · rw [hlive]
    intro d hd
    rcases List.mem_cons.mp hd with rfl | hd
    · show (s.alloc.carved _).chunkSize d < 2^32
      rw [hchunk, if_pos rfl]
      exact hlt
    · show (s.alloc.carved _).chunkSize d < 2^32
      rw [hold d (List.mem_append_left _ hd)]
      exact h.sizes d hd
  · intro i d hd
    show i = Nat.log2 ((s.alloc.carved _).chunkSize d) ∧ (s.alloc.carved _).chunkSize d < 2^32
    rw [hold d (List.mem_append_right _ (mem_freeChunks_of_bucket h hd))]
    exact h.bucket i d hd
  · show (s.alloc.carved (roundedRequest howMuch)).refCount s.alloc.myState.activeRAM =
      s.live.length + 1
    have := h.refs
    simp [Allocator.carved, this, u32_of_lt hlen]
  · intro o ho
    rcases List.mem_cons.mp ho with rfl | ho
    · refine ⟨c, rfl, ?_⟩
      show c + chunkHeaderSize + howMuch ≤ c + (s.alloc.carved _).chunkSize c
      rw [hchunk, if_pos rfl]
      omega
    · obtain ⟨d, hd, hle⟩ := h.usable o ho
      have hmem : d ∈ s.liveChunks := by
        refine List.mem_map.mpr ⟨o, ho, ?_⟩
        omega
      refine ⟨d, hd, ?_⟩
      show o.1 + o.2 ≤ d + (s.alloc.carved _).chunkSize d
      rw [hold d (List.mem_append_left _ hmem)]
      exact hle

/-! ## a chunk is given back -/

theorem blockRep_freeRAM (h : BlockRep s) {here : Nat} (hp : s.alloc.policy.Counts)
    (hin : here ∈ s.live.map Prod.fst) (hc : s.alloc.contains here = true)
    (hlen : s.live.length < 2^32) :
    BlockRep ⟨s.alloc.freeRAM here, s.live.eraseP fun o => o.1 = here⟩ := by
  obtain ⟨o₀, ho₀, e₀⟩ := List.mem_map.mp hin
  obtain ⟨o, l₁, l₂, -, eo, hl, he⟩ :=
    List.exists_of_eraseP (p := fun o : Nat × Nat => decide (o.1 = here)) ho₀ (by simpa using e₀)
  have eo' : o.1 = here := by simpa using eo
  have hperm : s.live.Perm (o :: (l₁ ++ l₂)) := by
    rw [hl]
    exact List.perm_middle
  obtain ⟨c, hc', -⟩ := h.usable o (by rw [hl]; simp)
  have hcc : here - chunkHeaderSize = c := by omega
  have hmem : c ∈ s.liveChunks := List.mem_map.mpr ⟨o, by rw [hl]; simp, by omega⟩
  have hlt := h.sizes c hmem
  rw [he, Allocator.freeRAM_contained hp hc, hcc, leadingZeros_index hlt]
  obtain ⟨i, hi⟩ : ∃ i, Nat.log2 (s.alloc.chunkSize c) = i := ⟨_, rfl⟩
  have hi32 : i < 32 := hi ▸ log2_lt_32 hlt
  rw [hi]
  have hback : (buckets 32 (Function.update s.alloc.myState.chunks i
      (s.alloc.myState.chunks i ++ [c]))).Perm (c :: s.alloc.freeChunks) := by
    have := buckets_update_perm (f := Function.update s.alloc.myState.chunks i
      (s.alloc.myState.chunks i ++ [c])) (l := s.alloc.myState.chunks i) (x := c) hi32
      (by rw [Function.update_self]; exact List.perm_append_singleton _ _)
    rwa [Function.update_idem, Function.update_eq_self] at this
  have hchunks : (s.liveChunks ++ s.alloc.freeChunks).Perm
      ((l₁ ++ l₂).map (fun o => o.1 - chunkHeaderSize) ++
        buckets 32 (Function.update s.alloc.myState.chunks i
          (s.alloc.myState.chunks i ++ [c]))) := by
    have h1 : s.liveChunks.Perm (c :: (l₁ ++ l₂).map (fun o => o.1 - chunkHeaderSize)) := by
      have := hperm.map fun o => o.1 - chunkHeaderSize
      rwa [List.map_cons, eo', hcc] at this
    exact (h1.append_right _).trans (List.perm_middle.symm.trans (hback.symm.append_left _))
  refine ⟨h.header_le, h.le_numBytes, h.tiles.perm (hchunks.map _), ?_, ?_, ?_, ?_⟩
  · intro d hd
    refine h.sizes d (hperm.map _ |>.mem_iff.mpr ?_)
    exact List.mem_cons_of_mem _ hd
  · intro k d hd
    have hd' : d ∈ Function.update s.alloc.myState.chunks i
        (s.alloc.myState.chunks i ++ [c]) k := hd
    by_cases e : k = i
    · subst e
      rw [Function.update_self] at hd'
      rcases List.mem_append.mp hd' with hd' | hd'
      · exact h.bucket k d hd'
      · rw [List.mem_singleton.mp hd']
        exact ⟨hi.symm, hlt⟩
    · rw [Function.update_of_ne e] at hd'
      exact h.bucket k d hd'
  · have hr := h.refs
    have hn : s.live.length = (l₁ ++ l₂).length + 1 := hperm.length_eq
    show (Function.update s.alloc.refCount s.alloc.myState.activeRAM
      (u32 (s.alloc.refCount s.alloc.myState.activeRAM + (2^32 - 1)))) s.alloc.myState.activeRAM =
      (l₁ ++ l₂).length
    rw [Function.update_self, hr, hn]
    exact u32_pred (by omega)
  · intro o' ho'
    exact h.usable o' (hperm.mem_iff.mpr (List.mem_cons_of_mem _ ho'))

/-! ## one step and whole runs -/

/-- one step: a step of the good kind keeps the representation invariant -/
theorem blockRep_step {op : BlockOp} (h : BlockRep s ∧ s.live.length < 2^32)
    (hc : s.Fine op) (he : s.step op = some t) : BlockRep t ∧ t.live.length < 2^32 := by
  obtain ⟨h, hlen⟩ := h
  cases op with
  | getRAM howMuch =>
    simp only [step] at he
    split at he
    · next hg =>
      cases he
      have hfail : (∃ r, (∀ p, r ≠ .ret p) ∧ s.alloc.getRAM howMuch = (r, s.alloc)) →
          BlockRep (s.afterGetRAM howMuch (s.alloc.getRAM howMuch)) ∧
            (s.afterGetRAM howMuch (s.alloc.getRAM howMuch)).live.length < 2^32 := by
        rintro ⟨r, hr, e⟩
        rw [e]
        cases r with
        | ret p => exact absurd rfl (hr p)
        | nullptr => exact ⟨h, hlen⟩
        | notEnoughSpace => exact ⟨h, hlen⟩
      rcases hc with hc | hfull
      · have hcases := Allocator.getRAM_cases s.alloc howMuch
        rw [bytesNeeded_eq hg.2] at hcases
        rcases hcases with ⟨-, i, j, hi, hj, hfit, e⟩ | ⟨hfit, e⟩ | hr
        · rw [e]
          exact ⟨blockRep_reused h hi hj hfit hc, hc⟩
        · rw [e]
          exact ⟨blockRep_carved h hg.2 hfit hc, hc⟩
        · exact hfail hr
      · exact hfail (Allocator.getRAM_full hfull)
    · cases he
  | freeRAM here =>
    simp only [step] at he
    split at he
    · next hg =>
      cases he
      refine ⟨blockRep_freeRAM h hg.1 hg.2 hc hlen, ?_⟩
      exact Nat.lt_of_le_of_lt (List.eraseP_sublist.length_le) hlen
    · cases he
  | setPolicy toMe =>
    simp only [step] at he
    split at he
    · cases he
      exact ⟨⟨h.1, h.2, h.3, h.4, h.5, h.6, h.7⟩, hlen⟩
    · cases he

end BlockState

/-- **The representation invariant over whole runs.**  After `setupBlock`, any run of `getRAM`,
`freeRAM` and policy changes whose steps are all `Fine` keeps the invariant, and a `getRAM` that
fails there changes nothing. -/
theorem blockRep_of_reach (a a' : Allocator) (place numBytesIn : Nat) (thr : Bool)
    (t : BlockState) (h : a.setupBlock place numBytesIn thr = some a')
    (hr : Reach BlockState.step BlockState.Fine ⟨a', []⟩ t) :
    BlockRep t ∧ ∀ howMuch, roundedRequest howMuch < 2^32 →
      (∀ p, (t.alloc.getRAM howMuch).1 ≠ .ret p) → (t.alloc.getRAM howMuch).2 = t.alloc := by
  have hinv := hr.inv (P := fun s => BlockRep s ∧ s.live.length < 2^32)
    ⟨BlockState.blockRep_setupBlock h, Nat.two_pow_pos 32⟩
    fun _ _ _ hP hcond hstep => BlockState.blockRep_step hP hcond hstep
  exact ⟨hinv.1, fun howMuch _ hf => Allocator.getRAM_fail hf⟩

/-- a block of 64 bytes: two objects, one freed, one more in its chunk, the next does not fit -/
theorem blockRep_small_block : ∃ a' t,
    (Allocator.blank (fun _ => 0) (fun _ => 0) fun _ => 0).setupBlock 1000 64 true = some a' ∧
    Reach BlockState.step BlockState.Fine ⟨a', []⟩ t ∧ t.live = [(1024, 5), (1040, 3)] ∧
    BlockRep t := by
  obtain ⟨a', ha⟩ : ∃ a',
      (Allocator.blank (fun _ => 0) (fun _ => 0) fun _ => 0).setupBlock 1000 64 true = some a' :=
    ⟨_, rfl⟩
  have hrun : ((some a').bind fun a => (run (guarded BlockState.step BlockState.Fine) ⟨a, []⟩
      [.getRAM 10, .getRAM 3, .freeRAM 1024, .getRAM 5, .getRAM 40]).map BlockState.live) =
      some [(1024, 5), (1040, 3)] := by
    rw [← ha]
    decide
  obtain ⟨t, ht, hlive⟩ := Option.map_eq_some_iff.mp hrun
  have hr := Reach.of_run _ ht
  exact ⟨a', t, ha, hr, hlive, (blockRep_of_reach _ _ _ _ _ _ ha hr).1⟩

/-- an empty object that ends the block is not given back: `contains` does not accept the address
behind the last byte -/
theorem blockRep_not_always :
    ¬ ∀ (a a' : Allocator) (place numBytesIn : Nat) (thr : Bool) (ops : List BlockOp)
      (t : BlockState), a.setupBlock place numBytesIn thr = some a' →
      run BlockState.step ⟨a', []⟩ ops = some t → BlockRep t := by
  intro h
  have hrep := h (Allocator.blank (fun _ => 0) (fun _ => 0) fun _ => 0) _ 1000 24 true
    [.getRAM 0, .freeRAM 1024] _ rfl rfl
  exact absurd hrep.refs (by decide)

end Netsdb
