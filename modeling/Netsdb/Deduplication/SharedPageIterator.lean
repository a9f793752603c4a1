import Mathlib.Data.List.Basic
import Netsdb.Deduplication.FFMatrixBlockIndex

/-!
# Scans of shared pages (`PartitionTensorBlockSharedPageIterator.cc`, `UserSet.cc`)

Sets that share blocks scan the pages of the shared set, all in the one page cache.  An iterator
writes the metadata that the blocks have in its set onto the page itself, and then returns the page;
the consumers read it for as long as they have it.

* `SharedScan.step`   the iterators take pages, write block after block and return them, and the
                      consumers give them back; unused pages are evicted;
* `Isolated`          what a consumer reads on its pages is what its own set has in the index;
* `Apart`             a page is taken only while no other set has it, or the sets agree on its blocks;
* `run_isolated`      then the scans are isolated, in every interleaving.
-/

set_option linter.unusedSectionVars false

namespace Netsdb

abbrev PageID := Nat

structure FFMatrixBlock where
  distinctBlockId : Int
  /-- the other fields of the block's `FFMatrixMeta` -/
  blockMeta : FFMatrixMeta
deriving DecidableEq, Repr

/-- a `PartitionTensorBlockSharedPageIterator` and its consumer -/
structure SharedPageIterator where
  set : SharingSet
  /-- the pages from `it` on -/
  pages : List PageID
  /-- `next` is at this block of the page at `it` -/
  cursor : Option Nat
  /-- the pages that have been returned and are being read -/
  returned : List PageID
deriving DecidableEq, Repr

namespace SharedPageIterator

/-- the page that `next` has taken -/
def taken (it : SharedPageIterator) : Option PageID := it.cursor.bind fun _ => it.pages.head?

/-- the page is pinned for this iterator -/
def Uses (it : SharedPageIterator) (p : PageID) : Prop := p ∈ it.returned ∨ it.taken = some p

instance (it : SharedPageIterator) (p : PageID) : Decidable (it.Uses p) :=
  inferInstanceAs (Decidable (_ ∨ _))

end SharedPageIterator

structure SharedScan where
  indexes : FFMatrixBlockIndex
  disk : PageID → List FFMatrixBlock
  cache : PageID → Option (List FFMatrixBlock)
  iterators : List SharedPageIterator

inductive SharedScanOp
  /-- `getIteratorsExtended` makes an iterator -/
  | start (set : SharingSet) (pages : List PageID)
  /-- `next` gets its page -/
  | getPage (i : Nat)
  /-- `next` writes the metadata of one block -/
  | write (i : Nat)
  /-- `next` returns -/
  | finish (i : Nat)
  /-- the consumer unpins a page -/
  | unpin (i : Nat) (p : PageID)
  /-- a page that nobody uses leaves the cache, and is flushed if it is dirty -/
  | evict (p : PageID) (dirty : Bool)
deriving DecidableEq

/-- what `next` writes when the index has nothing for a block -/
def missingMeta : FFMatrixMeta := ⟨-1, -1, 0, 0⟩

namespace SharedScan

def setIterator (s : SharedScan) (i : Nat) (it : SharedPageIterator) : SharedScan :=
  { s with iterators := s.iterators.set i it }

/-- the metadata that `next` writes -/
def target (s : SharedScan) (set : SharingSet) (blockKey : Int) : FFMatrixMeta :=
  (s.indexes.getTargetMetadata set blockKey).getD missingMeta

/-- the block at `k`, with the metadata it has in the set -/
def modified (s : SharedScan) (set : SharingSet) (blocks : List FFMatrixBlock) (k : Nat) :
    List FFMatrixBlock :=
  blocks.modify k fun b => { b with blockMeta := s.target set b.distinctBlockId }

/-- `PageCache::getPage`: the page in the cache, loaded if it was not there -/
def page (s : SharedScan) (p : PageID) : List FFMatrixBlock := (s.cache p).getD (s.disk p)

def getPage (s : SharedScan) (i : Nat) : Option SharedScan :=
  match s.iterators[i]? with
  | some ⟨set, p :: rest, none, returned⟩ =>
    some ({ s with cache := Function.update s.cache p (some (s.page p)) }.setIterator i
      ⟨set, p :: rest, some 0, returned⟩)
  | _ => none

def write (s : SharedScan) (i : Nat) : Option SharedScan :=
  match s.iterators[i]? with
  | some ⟨set, p :: rest, some k, returned⟩ =>
    match s.cache p with
    | some blocks =>
      if k < blocks.length then
        some ({ s with cache := Function.update s.cache p (some (s.modified set blocks k)) }.setIterator
          i ⟨set, p :: rest, some (k + 1), returned⟩)
      else none
    | none => none
  | _ => none

def finish (s : SharedScan) (i : Nat) : Option SharedScan :=
  match s.iterators[i]? with
  | some ⟨set, p :: rest, some k, returned⟩ =>
    match s.cache p with
    | some blocks =>
      if k < blocks.length then none
      else some (s.setIterator i ⟨set, rest, none, p :: returned⟩)
    | none => none
  | _ => none

def unpin (s : SharedScan) (i : Nat) (p : PageID) : Option SharedScan :=
  match s.iterators[i]? with
  | some it => some (s.setIterator i { it with returned := it.returned.erase p })
  | none => none

def evict (s : SharedScan) (p : PageID) (dirty : Bool) : Option SharedScan :=
  if ∃ it ∈ s.iterators, it.Uses p then none
  else some { s with
    disk := if dirty then Function.update s.disk p (s.page p) else s.disk
    cache := Function.update s.cache p none }

/-- `none`: the step is not possible -/
def step (s : SharedScan) : SharedScanOp → Option SharedScan
  | .start set pages => some { s with iterators := s.iterators ++ [⟨set, pages, none, []⟩] }
  | .getPage i => s.getPage i
  | .write i => s.write i
  | .finish i => s.finish i
  | .unpin i p => s.unpin i p
  | .evict p dirty => s.evict p dirty

/-- the shared pages on disk, an index, and no scan yet -/
def init (indexes : FFMatrixBlockIndex) (disk : PageID → List FFMatrixBlock) : SharedScan :=
  ⟨indexes, disk, fun _ => none, []⟩

/-- what the consumer of an iterator reads of the block at `k` of a page -/
def readMeta (s : SharedScan) (i : Nat) (p : PageID) (k : Nat) : Option FFMatrixBlock :=
  match s.iterators[i]? with
  | some it => if p ∈ it.returned then (s.cache p).bind fun blocks => blocks[k]? else none
  | none => none

/-! ## isolation -/

variable {s s' : SharedScan} {S S' : SharingSet} {p q : PageID} {i j k : Nat}
  {it jt : SharedPageIterator} {blocks : List FFMatrixBlock} {b : FFMatrixBlock}

/-- the sets have the same metadata for the blocks -/
def Agree (s : SharedScan) (set set' : SharingSet) (blocks : List FFMatrixBlock) : Prop :=
  ∀ b ∈ blocks, s.target set b.distinctBlockId = s.target set' b.distinctBlockId

/-- the condition on a step: a page is taken while every iterator that uses it agrees on it -/
def Apart (s : SharedScan) : SharedScanOp → Prop
  | .getPage i => ∀ it p, s.iterators[i]? = some it → it.pages.head? = some p →
    ∀ jt ∈ s.iterators, jt.Uses p → s.Agree it.set jt.set (s.page p)
  | _ => True

/-- what is known of one iterator -/
structure Right (s : SharedScan) (it : SharedPageIterator) : Prop where
  cached : ∀ p, it.Uses p → (s.cache p).isSome
  returned : ∀ p ∈ it.returned, ∀ blocks, s.cache p = some blocks →
    ∀ b ∈ blocks, b.blockMeta = s.target it.set b.distinctBlockId
  written : ∀ p k, it.pages.head? = some p → it.cursor = some k → ∀ blocks, s.cache p = some blocks →
    ∀ j b, j < k → blocks[j]? = some b → b.blockMeta = s.target it.set b.distinctBlockId

/-- **The invariant**: iterators that use one page agree on it, and its metadata is theirs. -/
structure Inv (s : SharedScan) : Prop where
  right : ∀ it ∈ s.iterators, s.Right it
  agree : ∀ it ∈ s.iterators, ∀ jt ∈ s.iterators, ∀ p, it.Uses p → jt.Uses p →
    ∀ blocks, s.cache p = some blocks → s.Agree it.set jt.set blocks

theorem Agree.symm (h : s.Agree S S' blocks) : s.Agree S' S blocks :=
  fun b hb => (h b hb).symm

theorem getElem?_modified (h : (s.modified S blocks k)[j]? = some b) :
    ∃ b₀, blocks[j]? = some b₀ ∧ b.distinctBlockId = b₀.distinctBlockId ∧
      b.blockMeta = if k = j then s.target S b₀.distinctBlockId else b₀.blockMeta := by
  rw [modified, List.getElem?_modify, Option.map_eq_map, Option.map_eq_some_iff] at h
  obtain ⟨b₀, hb₀, rfl⟩ := h
  refine ⟨b₀, hb₀, ?_, ?_⟩ <;> split <;> rfl

theorem mem_modified (h : b ∈ s.modified S blocks k) :
    ∃ b₀ ∈ blocks, b.distinctBlockId = b₀.distinctBlockId ∧
      (b.blockMeta = b₀.blockMeta ∨ b.blockMeta = s.target S b₀.distinctBlockId) := by
  obtain ⟨j, hj⟩ := List.mem_iff_getElem?.mp h
  obtain ⟨b₀, hb₀, hid, hmeta⟩ := getElem?_modified hj
  refine ⟨b₀, List.mem_of_getElem? hb₀, hid, ?_⟩
  split at hmeta
  · exact Or.inr hmeta
  · exact Or.inl hmeta

/-! ## steps -/

/-- one iterator and perhaps a page have changed -/
theorem Inv.update (it : SharedPageIterator) (h : s.Inv) (hindex : s'.indexes = s.indexes)
    (hits : ∀ jt ∈ s'.iterators, jt ∈ s.iterators ∨ jt = it)
    (hold : ∀ jt ∈ s.iterators, s'.Right jt) (hnew : s'.Right it)
    (hids : ∀ p blocks, s'.cache p = some blocks → ∀ b ∈ blocks, ∀ jt ∈ s.iterators, jt.Uses p →
      ∃ blocks₀ b₀, s.cache p = some blocks₀ ∧ b₀ ∈ blocks₀ ∧ b.distinctBlockId = b₀.distinctBlockId)
    (hagree : ∀ jt ∈ s.iterators, ∀ p, it.Uses p → jt.Uses p → ∀ blocks, s'.cache p = some blocks →
      s'.Agree it.set jt.set blocks) : s'.Inv := by
  have htarget : s'.target = s.target := by
    funext set k
    rw [target, target, hindex]
  refine ⟨fun jt hjt => ?_, fun jt hjt lt hlt p hp hp' blocks hb => ?_⟩
  · rcases hits jt hjt with hjt | rfl
    · exact hold jt hjt
    · exact hnew
  · rcases hits jt hjt with hjt | rfl
    · rcases hits lt hlt with hlt | rfl
      · intro b hmem
        obtain ⟨blocks₀, b₀, hb₀, hmem₀, hid⟩ := hids p blocks hb b hmem jt hjt hp
        rw [htarget, hid]
        exact h.agree jt hjt lt hlt p hp hp' blocks₀ hb₀ b₀ hmem₀
      · exact (hagree jt hjt p hp' hp blocks hb).symm
    · rcases hits lt hlt with hlt | rfl
      · exact hagree lt hlt p hp hp' blocks hb
      · exact fun b _ => rfl

/-- an iterator whose pages are as they were -/
theorem Right.congr (h : s.Right it) (hindex : s'.indexes = s.indexes)
    (hcache : ∀ p, it.Uses p → s'.cache p = s.cache p) : s'.Right it := by
  have htarget : s'.target = s.target := by
    funext set k
    rw [target, target, hindex]
  refine ⟨fun p hp => ?_, fun p hp blocks hb b hmem => ?_, fun p k hp hk blocks hb j b hj hget => ?_⟩
  · rw [hcache p hp]
    exact h.cached p hp
  · rw [hcache p (Or.inl hp)] at hb
    rw [htarget]
    exact h.returned p hp blocks hb b hmem
  · have huse : it.Uses p := by
      refine Or.inr ?_
      rw [SharedPageIterator.taken, hk]
      exact hp
    rw [hcache p huse] at hb
    rw [htarget]
    exact h.written p k hp hk blocks hb j b hj hget

/-- one iterator has changed, and the pages that are used have not -/
theorem Inv.update_iterator (it : SharedPageIterator) (h : s.Inv) (hindex : s'.indexes = s.indexes)
    (hcache : ∀ jt ∈ s.iterators, ∀ p, jt.Uses p → s'.cache p = s.cache p)
    (hits : ∀ jt ∈ s'.iterators, jt ∈ s.iterators ∨ jt = it) (hnew : s'.Right it)
    (hagree : ∀ jt ∈ s.iterators, ∀ p, it.Uses p → jt.Uses p → ∀ blocks, s.cache p = some blocks →
      s.Agree it.set jt.set blocks) : s'.Inv := by
  refine h.update it hindex hits (fun jt hjt => (h.right jt hjt).congr hindex (hcache jt hjt)) hnew
    (fun p blocks hb b hmem jt hjt hp => ?_) fun jt hjt p hp hp' blocks hb => ?_
  · rw [hcache jt hjt p hp] at hb
    exact ⟨blocks, b, hb, hmem, rfl⟩
  · rw [hcache jt hjt p hp'] at hb
    intro b hmem
    rw [target, target, hindex]
    exact hagree jt hjt p hp hp' blocks hb b hmem

theorem mem_setIterator (hmem : jt ∈ (s.setIterator i it).iterators) : jt ∈ s.iterators ∨ jt = it :=
  List.mem_or_eq_of_mem_set hmem

theorem page_of_cache (h : s.cache p = some blocks) : s.page p = blocks := by
  rw [page, h]
  rfl

/-! ### one lemma for each step -/

theorem getPage_inv (h : s.Inv) (hs : s.getPage i = some s') (hap : s.Apart (.getPage i)) :
    s'.Inv := by
  unfold getPage at hs
  split at hs
  · next set p rest returned hget =>
    have hs' := Option.some.inj hs
    have hmem : (⟨set, p :: rest, none, returned⟩ : SharedPageIterator) ∈ s.iterators :=
      List.mem_of_getElem? hget
    have hcache : ∀ jt ∈ s.iterators, ∀ q, jt.Uses q →
        Function.update s.cache p (some (s.page p)) q = s.cache q := by
      intro jt hjt q hq
      by_cases e : q = p
      · subst e
        obtain ⟨blocks, hb⟩ := Option.isSome_iff_exists.mp ((h.right jt hjt).cached q hq)
        rw [Function.update_self, page_of_cache hb, hb]
      · rw [Function.update_of_ne e]
    subst hs'
    refine h.update_iterator ⟨set, p :: rest, some 0, returned⟩ rfl hcache
      (fun jt => mem_setIterator (s := { s with cache := _ })) ?_ ?_
    · refine ⟨fun q hq => ?_, fun q hq blocks hb b hmem' => ?_, fun q k _ hk _ _ j _ hj => ?_⟩
      · rcases hq with hq | hq
        · show (Function.update s.cache p (some (s.page p)) q).isSome
          rw [hcache _ hmem q (Or.inl hq)]
          exact (h.right _ hmem).cached q (Or.inl hq)
        · have hqp : p = q := Option.some.inj hq
          show (Function.update s.cache p (some (s.page p)) q).isSome
          rw [hqp, Function.update_self]
          rfl
      · change Function.update s.cache p (some (s.page p)) q = some blocks at hb
        rw [hcache _ hmem q (Or.inl hq)] at hb
        exact (h.right _ hmem).returned q hq blocks hb b hmem'
      · have hk0 : 0 = k := Option.some.inj hk
        omega
    · intro jt hjt q hq hq' blocks hb
      rcases hq with hq | hq
      · exact h.agree _ hmem jt hjt q (Or.inl hq) hq' blocks hb
      · have hqp : p = q := Option.some.inj hq
        subst hqp
        rw [← page_of_cache hb]
        exact hap _ p hget rfl jt hjt hq'
  · cases hs

/-- an iterator whose set agrees with the one that writes -/
theorem Right.modify (h : s.Right jt) (hcache : s.cache p = some blocks)
    (hagree : jt.Uses p → s.Agree S jt.set blocks) :
    ({ s with cache := Function.update s.cache p (some (s.modified S blocks k)) } :
      SharedScan).Right jt := by
  refine ⟨fun q hq => ?_, fun q hq bs hb b hmem => ?_, fun q c hq hc bs hb j b hj hget => ?_⟩
  · show (Function.update s.cache p (some (s.modified S blocks k)) q).isSome
    by_cases e : q = p
    · rw [e, Function.update_self]
      rfl
    · rw [Function.update_of_ne e]
      exact h.cached q hq
  · change Function.update s.cache p (some (s.modified S blocks k)) q = some bs at hb
    by_cases e : q = p
    · subst e
      rw [Function.update_self] at hb
      rw [← Option.some.inj hb] at hmem
      obtain ⟨b₀, hmem₀, hid, hmeta⟩ := mem_modified hmem
      show b.blockMeta = s.target jt.set b.distinctBlockId
      rw [hid]
      rcases hmeta with hmeta | hmeta
      · rw [hmeta]
        exact h.returned q hq blocks hcache b₀ hmem₀
      · rw [hmeta]
        exact hagree (Or.inl hq) b₀ hmem₀
    · rw [Function.update_of_ne e] at hb
      exact h.returned q hq bs hb b hmem
  · change Function.update s.cache p (some (s.modified S blocks k)) q = some bs at hb
    by_cases e : q = p
    · subst e
      rw [Function.update_self] at hb
      rw [← Option.some.inj hb] at hget
      obtain ⟨b₀, hget₀, hid, hmeta⟩ := getElem?_modified hget
      show b.blockMeta = s.target jt.set b.distinctBlockId
      rw [hid, hmeta]
      have huse : jt.Uses q := by
        refine Or.inr ?_
        rw [SharedPageIterator.taken, hc]
        exact hq
      split
      · exact hagree huse b₀ (List.mem_of_getElem? hget₀)
      · exact h.written q c hq hc blocks hcache j b₀ hj hget₀
    · rw [Function.update_of_ne e] at hb
      exact h.written q c hq hc bs hb j b hj hget

theorem write_inv (h : s.Inv) (hs : s.write i = some s') : s'.Inv := by
  unfold write at hs
  split at hs
  · next set p rest k returned hget =>
    have hmem : (⟨set, p :: rest, some k, returned⟩ : SharedPageIterator) ∈ s.iterators :=
      List.mem_of_getElem? hget
    have hself : (⟨set, p :: rest, some k, returned⟩ : SharedPageIterator).Uses p := Or.inr rfl
    split at hs
    · next blocks hcache =>
      split at hs
      · have hs' := Option.some.inj hs
        have hright : ∀ jt ∈ s.iterators, ({ s with
            cache := Function.update s.cache p (some (s.modified set blocks k)) } :
              SharedScan).Right jt :=
          fun jt hjt => (h.right jt hjt).modify hcache fun hp =>
            h.agree _ hmem jt hjt p hself hp blocks hcache
        have hold := hright _ hmem
        subst hs'
        refine h.update ⟨set, p :: rest, some (k + 1), returned⟩ rfl
          (fun jt => mem_setIterator (s := { s with cache := _ }))
          (fun jt hjt => (hright jt hjt).congr rfl fun _ _ => rfl)
          ⟨hold.cached, hold.returned, fun q c hq hc bs hb j b hj hget' => ?_⟩
          (fun q bs hb b hb' jt hjt hq => ?_) fun jt hjt q hq hq' bs hb b hb' => ?_
        · have hc' : k + 1 = c := Option.some.inj hc
          have hqp : p = q := Option.some.inj hq
          by_cases hjk : j < k
          · exact hold.written q k hq rfl bs hb j b hjk hget'
          · -- the block that has just been written
            subst hqp
            change Function.update s.cache p (some (s.modified set blocks k)) p = some bs at hb
            rw [Function.update_self] at hb
            rw [← Option.some.inj hb] at hget'
            obtain ⟨b₀, -, hid, hmeta⟩ := getElem?_modified hget'
            rw [if_pos (show k = j by omega)] at hmeta
            show b.blockMeta = s.target set b.distinctBlockId
            rw [hid, hmeta]
        · obtain ⟨bs₀, hb₀⟩ := Option.isSome_iff_exists.mp ((h.right jt hjt).cached q hq)
          change Function.update s.cache p (some (s.modified set blocks k)) q = some bs at hb
          by_cases e : q = p
          · subst e
            rw [Function.update_self] at hb
            rw [← Option.some.inj hb] at hb'
            obtain ⟨b₀, hmem₀, hid, -⟩ := mem_modified hb'
            exact ⟨blocks, b₀, hcache, hmem₀, hid⟩
          · rw [Function.update_of_ne e] at hb
            exact ⟨bs, b, hb, hb', rfl⟩
        · change Function.update s.cache p (some (s.modified set blocks k)) q = some bs at hb
          show s.target set b.distinctBlockId = s.target jt.set b.distinctBlockId
          by_cases e : q = p
          · subst e
            rw [Function.update_self] at hb
            rw [← Option.some.inj hb] at hb'
            obtain ⟨b₀, hmem₀, hid, -⟩ := mem_modified hb'
            rw [hid]
            exact h.agree _ hmem jt hjt q hself hq' blocks hcache b₀ hmem₀
          · rw [Function.update_of_ne e] at hb
            exact h.agree _ hmem jt hjt q hq hq' bs hb b hb'
      · cases hs
    · cases hs
  · cases hs

theorem finish_inv (h : s.Inv) (hs : s.finish i = some s') : s'.Inv := by
  unfold finish at hs
  split at hs
  · next set p rest k returned hget =>
    have hmem : (⟨set, p :: rest, some k, returned⟩ : SharedPageIterator) ∈ s.iterators :=
      List.mem_of_getElem? hget
    have huse : ∀ q, (⟨set, rest, none, p :: returned⟩ : SharedPageIterator).Uses q →
        (⟨set, p :: rest, some k, returned⟩ : SharedPageIterator).Uses q := by
      intro q hq
      rcases hq with hq | hq
      · rcases List.mem_cons.mp hq with rfl | hq
        · exact Or.inr rfl
        · exact Or.inl hq
      · cases hq
    split at hs
    · next blocks hcache =>
      split at hs
      · cases hs
      · next hk =>
        have hs' := Option.some.inj hs
        subst hs'
        refine h.update_iterator ⟨set, rest, none, p :: returned⟩ rfl (fun _ _ _ _ => rfl)
          (fun jt => mem_setIterator) ?_ fun jt hjt q hq => h.agree _ hmem jt hjt q (huse q hq)
        have hr := h.right _ hmem
        refine ⟨fun q hq => hr.cached q (huse q hq), fun q hq bs hb b hmem' => ?_,
          fun q k _ hk => by cases hk⟩
        rcases List.mem_cons.mp hq with rfl | hq
        · obtain ⟨j, hj⟩ := List.mem_iff_getElem?.mp hmem'
          have hbs : blocks = bs := Option.some.inj (hcache.symm.trans hb)
          have hlt : j < k := by
            have := (List.getElem?_eq_some_iff.mp hj).1
            rw [← hbs] at this
            omega
          exact hr.written q k rfl rfl bs hb j b hlt hj
        · exact hr.returned q hq bs hb b hmem'
    · cases hs
  · cases hs

theorem unpin_inv (h : s.Inv) (hs : s.unpin i p = some s') : s'.Inv := by
  unfold unpin at hs
  split at hs
  · next it hget =>
    have hmem : it ∈ s.iterators := List.mem_of_getElem? hget
    have hs' := Option.some.inj hs
    subst hs'
    have hsub : ∀ q, q ∈ it.returned.erase p → q ∈ it.returned := fun q => List.mem_of_mem_erase
    have huse : ∀ q, ({ it with returned := it.returned.erase p } : SharedPageIterator).Uses q →
        it.Uses q := fun q hq => hq.imp (hsub q) id
    refine h.update_iterator { it with returned := it.returned.erase p } rfl
      (fun _ _ _ _ => rfl) (fun jt => mem_setIterator) ?_
      fun jt hjt q hq => h.agree _ hmem jt hjt q (huse q hq)
    have hr := h.right _ hmem
    exact ⟨fun q hq => hr.cached q (huse q hq), fun q hq => hr.returned q (hsub q hq), hr.written⟩
  · cases hs

theorem evict_inv (h : s.Inv) {dirty : Bool} (hs : s.evict p dirty = some s') : s'.Inv := by
  unfold evict at hs
  split at hs
  · cases hs
  · next hunused =>
    have hs' := Option.some.inj hs
    subst hs'
    have hcache : ∀ jt ∈ s.iterators, ∀ q, jt.Uses q →
        Function.update s.cache p none q = s.cache q := by
      intro jt hjt q hq
      have hne : q ≠ p := fun e => hunused ⟨jt, hjt, e ▸ hq⟩
      rw [Function.update_of_ne hne]
    refine ⟨fun jt hjt => (h.right jt hjt).congr rfl (hcache jt hjt),
      fun jt hjt lt hlt q hq hq' blocks hb => ?_⟩
    change Function.update s.cache p none q = some blocks at hb
    rw [hcache jt hjt q hq] at hb
    exact h.agree jt hjt lt hlt q hq hq' blocks hb

theorem start_inv (h : s.Inv) (S : SharingSet) (pages : List PageID) :
    ({ s with iterators := s.iterators ++ [⟨S, pages, none, []⟩] } : SharedScan).Inv := by
  have hnone : ∀ q, ¬ (⟨S, pages, none, []⟩ : SharedPageIterator).Uses q := by
    intro q hq
    rcases hq with hq | hq
    · cases hq
    · cases hq
  refine h.update_iterator ⟨S, pages, none, []⟩ rfl (fun _ _ _ _ => rfl) (fun jt hjt => ?_)
    ⟨fun q hq => absurd hq (hnone q), fun q hq => (by cases hq), fun q k _ hk => (by cases hk)⟩
    fun _ _ q hq => absurd hq (hnone q)
  rcases List.mem_append.mp hjt with hjt | hjt
  · exact Or.inl hjt
  · exact Or.inr (List.mem_singleton.mp hjt)

/-- **A step** that keeps the pages of disagreeing sets apart keeps the invariant. -/
theorem step_inv {op : SharedScanOp} (h : s.Inv) (hs : s.step op = some s') (hap : s.Apart op) :
    s'.Inv := by
  cases op with
  | start S pages =>
    have hs' := Option.some.inj hs
    subst hs'
    exact start_inv h S pages
  | getPage i => exact getPage_inv h hs hap
  | write i => exact write_inv h hs
  | finish i => exact finish_inv h hs
  | unpin i p => exact unpin_inv h hs
  | evict p dirty => exact evict_inv h hs

theorem init_inv (indexes : FFMatrixBlockIndex) (disk : PageID → List FFMatrixBlock) :
    (init indexes disk).Inv :=
  ⟨fun it hit => (by cases hit), fun it hit => (by cases hit)⟩

/-- what a step leaves alone: the index, and the set of every iterator -/
structure Frame (s s' : SharedScan) (op : SharedScanOp) : Prop where
  indexes : s'.indexes = s.indexes
  sets : ∀ it ∈ s'.iterators, (∃ jt ∈ s.iterators, jt.set = it.set) ∨
    ∃ pages, op = .start it.set pages

theorem frame_setIterator {op : SharedScanOp} (hjt : s.iterators[i]? = some jt)
    (hindex : s'.indexes = s.indexes) (hits : s'.iterators = s.iterators) (hset : it.set = jt.set) :
    Frame s (s'.setIterator i it) op := by
  refine ⟨hindex, fun lt hlt => Or.inl ?_⟩
  rcases mem_setIterator hlt with hlt | rfl
  · exact ⟨lt, hits ▸ hlt, rfl⟩
  · exact ⟨jt, List.mem_of_getElem? hjt, hset.symm⟩

theorem step_frame {op : SharedScanOp} (hs : s.step op = some s') : Frame s s' op := by
  cases op with
  | start S pages =>
    have hs' := Option.some.inj hs
    subst hs'
    refine ⟨rfl, fun it hit => ?_⟩
    rcases List.mem_append.mp hit with hit | hit
    · exact Or.inl ⟨it, hit, rfl⟩
    · rw [List.mem_singleton.mp hit]
      exact Or.inr ⟨pages, rfl⟩
  | getPage i =>
    rw [step, getPage] at hs
    split at hs
    · next set p rest returned hget => exact Option.some.inj hs ▸ frame_setIterator hget rfl rfl rfl
    · cases hs
  | write i =>
    rw [step, write] at hs
    split at hs
    · next set p rest k returned hget =>
      split at hs
      · split at hs
        · exact Option.some.inj hs ▸ frame_setIterator hget rfl rfl rfl
        · cases hs
      · cases hs
    · cases hs
  | finish i =>
    rw [step, finish] at hs
    split at hs
    · next set p rest k returned hget =>
      split at hs
      · split at hs
        · cases hs
        · exact Option.some.inj hs ▸ frame_setIterator hget rfl rfl rfl
      · cases hs
    · cases hs
  | unpin i p =>
    rw [step, unpin] at hs
    split at hs
    · next it hget => exact Option.some.inj hs ▸ frame_setIterator hget rfl rfl rfl
    · cases hs
  | evict p dirty =>
    rw [step, evict] at hs
    split at hs
    · cases hs
    · exact Option.some.inj hs ▸ ⟨rfl, fun it hit => Or.inl ⟨it, hit, rfl⟩⟩

/-! ## runs -/

def run : SharedScan → List SharedScanOp → Option SharedScan
  | s, [] => some s
  | s, op :: ops => (s.step op).bind fun s' => run s' ops

/-- a property of all steps of a run -/
def AllSteps (P : SharedScan → SharedScanOp → Prop) : SharedScan → List SharedScanOp → Prop
  | _, [] => True
  | s, op :: ops => P s op ∧ ∀ s', s.step op = some s' → AllSteps P s' ops

/-- every consumer reads, for every block of a page that its iterator has returned, what its set has
put into the index -/
def Isolated (entries : List FFMatrixBlockIndex.Entry) (s : SharedScan) : Prop :=
  ∀ i it, s.iterators[i]? = some it → ∀ p ∈ it.returned, ∀ k b, s.readMeta i p k = some b →
    b.blockMeta = (FFMatrixBlockIndex.own entries it.set b.distinctBlockId).getD missingMeta

variable {entries : List FFMatrixBlockIndex.Entry}

/-- the condition: a set that scans has its key to itself, and pages that are in use are not taken for
sets that have other metadata for their blocks -/
structure Disciplined (entries : List FFMatrixBlockIndex.Entry) (s : SharedScan)
    (op : SharedScanOp) : Prop where
  ownKey : ∀ S pages, op = .start S pages → FFMatrixBlockIndex.HasOwnKey entries S
  apart : s.Apart op

/-- what a run of such steps keeps -/
structure Kept (entries : List FFMatrixBlockIndex.Entry) (s : SharedScan) : Prop where
  inv : s.Inv
  indexes : s.indexes = FFMatrixBlockIndex.load entries
  ownKey : ∀ it ∈ s.iterators, FFMatrixBlockIndex.HasOwnKey entries it.set

theorem step_kept {op : SharedScanOp} (h : s.Kept entries) (hs : s.step op = some s')
    (hop : Disciplined entries s op) : s'.Kept entries := by
  have hf := step_frame hs
  refine ⟨step_inv h.inv hs hop.apart, hf.indexes.trans h.indexes, fun it hit => ?_⟩
  rcases hf.sets it hit with ⟨jt, hjt, hset⟩ | ⟨pages, hstart⟩
  · exact hset ▸ h.ownKey jt hjt
  · exact hop.ownKey it.set pages hstart

theorem run_kept {ops : List SharedScanOp} (h : s.Kept entries) (hr : s.run ops = some s')
    (hops : AllSteps (Disciplined entries) s ops) : s'.Kept entries := by
  induction ops generalizing s with
  | nil => exact Option.some.inj hr ▸ h
  | cons op ops ih =>
    obtain ⟨hop, hrest⟩ := hops
    obtain ⟨s₁, hs₁, hr₁⟩ := Option.bind_eq_some_iff.mp hr
    exact ih (step_kept h hs₁ hop) hr₁ (hrest s₁ hs₁)

theorem Kept.isolated (h : s.Kept entries) : s.Isolated entries := by
  intro i it hit p hp k b hread
  have hmem : it ∈ s.iterators := List.mem_of_getElem? hit
  rw [readMeta, hit] at hread
  obtain ⟨blocks, hb, hk⟩ := Option.bind_eq_some_iff.mp ((if_pos hp).symm.trans hread)
  have hmeta := (h.inv.right it hmem).returned p hp blocks hb b (List.mem_of_getElem? hk)
  rw [hmeta, target, h.indexes, FFMatrixBlockIndex.getTargetMetadata_load (h.ownKey it hmem)]

/-- **Scans that keep apart are isolated**: in every interleaving, every consumer reads the metadata
that its own set has put into the index. -/
theorem run_isolated (entries : List FFMatrixBlockIndex.Entry) (disk : PageID → List FFMatrixBlock)
    (ops : List SharedScanOp)
    (hops : AllSteps (Disciplined entries) (init (FFMatrixBlockIndex.load entries) disk) ops)
    (hr : (init (FFMatrixBlockIndex.load entries) disk).run ops = some s) : s.Isolated entries := by
  have hinit : (init (FFMatrixBlockIndex.load entries) disk).Kept entries :=
    ⟨init_inv _ disk, rfl, fun it hit => (by cases hit)⟩
  exact (run_kept hinit hr hops).isolated

/-! ## two sets, one page -/

def setA : SharingSet := ⟨1, 1, 1⟩

def setB : SharingSet := ⟨1, 1, 2⟩

/-- the shared block 7 is block (0, 0) of the first set and block (1, 1) of the second one -/
def twoSets : List FFMatrixBlockIndex.Entry := [⟨setA, 7, ⟨0, 0, 2, 2⟩⟩, ⟨setB, 7, ⟨1, 1, 2, 2⟩⟩]

def onePage : PageID → List FFMatrixBlock := fun _ => [⟨7, ⟨-1, -1, -1, -1⟩⟩]

/-- the page is taken for the second set while the consumer of the first one still has it -/
def overlapping : List SharedScanOp :=
  [.start setA [0], .start setB [0], .getPage 0, .write 0, .finish 0, .getPage 1, .write 1, .finish 1]

/-- the consumer of the first set gives the page back before -/
def inTurn : List SharedScanOp :=
  [.start setA [0], .start setB [0], .getPage 0, .write 0, .finish 0, .unpin 0 0, .getPage 1,
    .write 1, .finish 1]

theorem overlapping_run :
    ((init (FFMatrixBlockIndex.load twoSets) onePage).run overlapping).map
      (fun s => (s.iterators, s.readMeta 0 0 0)) =
    some ([⟨setA, [], none, [0]⟩, ⟨setB, [], none, [0]⟩], some ⟨7, ⟨1, 1, 2, 2⟩⟩) := by
  decide +kernel

/-- **A consumer reads the metadata of another set.** -/
theorem not_always_isolated : ¬ ∀ entries disk ops s',
    (init (FFMatrixBlockIndex.load entries) disk).run ops = some s' → s'.Isolated entries := by
  intro h
  obtain ⟨s', hr, hs'⟩ := Option.map_eq_some_iff.mp overlapping_run
  have hits : s'.iterators[0]? = some ⟨setA, [], none, [0]⟩ := by
    rw [(Prod.mk.inj hs').1]
    rfl
  have hread := h twoSets onePage overlapping s' hr 0 _ hits 0 List.mem_cons_self 0 _
    (Prod.mk.inj hs').2
  exact absurd hread (by decide)

theorem ownKey_twoSets : ∀ S ∈ [setA, setB], FFMatrixBlockIndex.HasOwnKey twoSets S :=
  fun S hS => ⟨by revert S; decide +kernel, by revert S; decide +kernel⟩

/-- a step while no page is in use -/
theorem disciplined_of_unused {op : SharedScanOp}
    (hkey : ∀ S pages, op = .start S pages → S ∈ [setA, setB])
    (hunused : ∀ jt ∈ s.iterators, jt.returned = [] ∧ jt.cursor = none) :
    Disciplined twoSets s op := by
  refine ⟨fun S pages hop => ownKey_twoSets S (hkey S pages hop), ?_⟩
  cases op with
  | getPage i =>
    intro it p _ _ jt hjt huse
    obtain ⟨hret, hcur⟩ := hunused jt hjt
    rcases huse with huse | huse
    · rw [hret] at huse
      cases huse
    · rw [SharedPageIterator.taken, hcur] at huse
      cases huse
  | _ => trivial

/-- a step other than a start and `getPage` -/
theorem disciplined_of_other {op : SharedScanOp} (hstart : ∀ S pages, op ≠ .start S pages)
    (hget : ∀ i, op ≠ .getPage i) : Disciplined twoSets s op := by
  refine ⟨fun S pages hop => absurd hop (hstart S pages), ?_⟩
  cases op with
  | getPage i => exact absurd rfl (hget i)
  | _ => trivial

theorem inTurn_disciplined :
    AllSteps (Disciplined twoSets) (init (FFMatrixBlockIndex.load twoSets) onePage) inTurn := by
  refine ⟨disciplined_of_unused (fun S p h => by cases h; decide) (by decide), fun s₁ h₁ => ?_⟩
  obtain rfl := Option.some.inj h₁
  refine ⟨disciplined_of_unused (fun S p h => by cases h; decide) (by decide), fun s₂ h₂ => ?_⟩
  obtain rfl := Option.some.inj h₂
  refine ⟨disciplined_of_unused (fun S p h => by cases h) (by decide), fun s₃ h₃ => ?_⟩
  obtain rfl := Option.some.inj h₃
  refine ⟨disciplined_of_other nofun nofun, fun s₄ h₄ => ?_⟩
  obtain rfl := Option.some.inj h₄
  refine ⟨disciplined_of_other nofun nofun, fun s₅ h₅ => ?_⟩
  obtain rfl := Option.some.inj h₅
  refine ⟨disciplined_of_other nofun nofun, fun s₆ h₆ => ?_⟩
  obtain rfl := Option.some.inj h₆
  refine ⟨disciplined_of_unused (fun S p h => by cases h) (by decide), fun s₇ h₇ => ?_⟩
  exact ⟨disciplined_of_other nofun nofun, fun s₈ h₈ =>
    ⟨disciplined_of_other nofun nofun, fun _ _ => trivial⟩⟩

theorem run_isolated_inTurn :
    ∃ s, (init (FFMatrixBlockIndex.load twoSets) onePage).run inTurn = some s ∧
      s.Isolated twoSets := by
  have hsome : ((init (FFMatrixBlockIndex.load twoSets) onePage).run inTurn).isSome := by
    decide +kernel
  obtain ⟨s, hr⟩ := Option.isSome_iff_exists.mp hsome
  exact ⟨s, hr, run_isolated twoSets onePage inTurn inTurn_disciplined hr⟩

end SharedScan
end Netsdb
