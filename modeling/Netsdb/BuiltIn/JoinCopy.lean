import Netsdb.BuiltIn.JoinUndo
import Netsdb.BuiltIn.PairCopy

/-!
# Deep copies of a `JoinPairArray` (`JoinPairArray.cc`, `JoinMap.h`)

* `JoinPairArray.setUpAndCopyFrom`   the overflows are assigned, and the slots are copied one by one;
* `JoinMap.deepCopyJoinMap`          makes the array and each list of overflows itself;
* `JoinTarget.destroyed`             the slots that the destructor visits.

Neither copy marks the slots that it has not come to.
-/

set_option linter.unusedSectionVars false

namespace Netsdb

/-- a table and the chunks of RAM that it has: of the array itself, of the array of the overflows,
and of the array of each list -/
structure StoredJoin (V : Type*) where
  table : JoinPairArray V
  addr : Nat
  outer : Nat
  inner : Nat → Nat

/-- what can run out of space -/
inductive JoinCopySite
  /-- `makeObject<JoinMap> ()` -/
  | map
  /-- the memory for the table -/
  | table
  /-- `Vector ()`, the overflows of the copy -/
  | overflows
  /-- the memory for the array of the overflows -/
  | outer
  /-- `Vector ()`, list `l` -/
  | list (l : Nat)
  /-- the memory for the array of list `l` -/
  | listArray (l : Nat)
  /-- value `j` of list `l` -/
  | item (l j : Nat)
  /-- `push_back ()` of list `l` -/
  | push (l : Nat)
  /-- the value in slot `i` -/
  | value (i : Nat)
deriving DecidableEq, Repr

/-- `some constructed`: the step throws; `constructed` tells whether its object is there by then -/
abbrev JoinCopyFail := JoinCopySite → Option Bool

/-- the memory of a copy -/
structure JoinTarget (V : Type*) where
  data : Nat → JoinMapRecordClass V
  /-- `valueTypeInfo.descendsFromObject ()` -/
  descends : Bool
  /-- an object has been constructed in the slot -/
  values : Nat → Bool
  /-- the objects that nothing destroys: those in the arrays of overflows, as the destructor of
  `Array` has no body, and the overflows that are constructed over -/
  lists : Nat

inductive JoinObject
  | slot (i : Nat)
  | list (k : Nat)
deriving DecidableEq, Repr

namespace JoinTarget
variable {V : Type*}

def writeHash (t : JoinTarget V) (i hash : Nat) : JoinTarget V :=
  { t with data := Function.update t.data i { t.data i with hash := hash } }

def writeNext (t : JoinTarget V) (i next : Nat) : JoinTarget V :=
  { t with data := Function.update t.data i { t.data i with next := next } }

def writeValue (t : JoinTarget V) (i : Nat) (v : V) : JoinTarget V :=
  { t with data := Function.update t.data i { t.data i with value := v } }

theorem writeHash_self (t : JoinTarget V) (i hash : Nat) :
    (t.writeHash i hash).data i = { t.data i with hash := hash } := Function.update_self _ _ _

theorem writeNext_self (t : JoinTarget V) (i next : Nat) :
    (t.writeNext i next).data i = { t.data i with next := next } := Function.update_self _ _ _

theorem writeValue_self (t : JoinTarget V) (i : Nat) (v : V) :
    (t.writeValue i v).data i = { t.data i with value := v } := Function.update_self _ _ _

/-- the destructor -/
def destroyed (t : JoinTarget V) (numSlots : Nat) : List JoinObject :=
  if !t.descends then []
  else ((List.range numSlots).filter fun i => (t.data i).hash ≠ JM_UNUSED).map .slot

def Constructed (t : JoinTarget V) : JoinObject → Prop
  | .slot i => t.values i = true
  | .list k => k < t.lists

end JoinTarget

/-- how the copy of a list, or of all lists, ends; `built` objects have been constructed by then -/
inductive ListEnd (α : Type*)
  | copied (l : List α) (next built : Nat)
  | notEnoughSpace (built : Nat)

namespace JoinPairArray
variable {V : Type*}

/-- the loop over the elements of an `Array`, which are assigned -/
def copyItems (c : Constituent V) (fail : Nat → Option Bool) :
    Nat → List V → Nat → Nat → ListEnd V
  | _, [], next, built => .copied [] next built
  | j, v :: vs, next, built =>
    match fail j with
    | some constructed => .notEnoughSpace (built + constructed.toNat)
    | none =>
      match copyItems c fail (j + 1) vs (c.copy v next).2 (built + 1) with
      | .copied vs' next' built' => .copied ((c.copy v next).1 :: vs') next' built'
      | .notEnoughSpace built' => .notEnoughSpace built'

/-- list `l`, an empty vector so far: its array is copied, or shared if it is in the current block
already -/
def copyList (start : Nat) (c : Constituent V) (fail : JoinCopyFail) (inner : Nat → Nat) (l : Nat)
    (w : PDBVector V) (next built : Nat) : ListEnd V :=
  if start ≤ inner l then .copied w.items (next + 1) built
  else if (fail (.listArray l)).isSome then .notEnoughSpace built
  else if !c.descendsFromObject then .copied (w.items.map c.moved) (next + 2) built
  else copyItems c (fun j => fail (.item l j)) 0 w.items (next + 2) built

/-- the elements of the array of the overflows, each of which is constructed as an empty vector -/
def copyLists (start : Nat) (c : Constituent V) (fail : JoinCopyFail) (inner : Nat → Nat) :
    Nat → List (PDBVector V) → Nat → Nat → ListEnd (Nat × PDBVector V)
  | _, [], next, built => .copied [] next built
  | l, w :: ws, next, built =>
    if (fail (.list l)).isSome then .notEnoughSpace built
    else
      match copyList start c fail inner l w next (built + 1) with
      | .notEnoughSpace built' => .notEnoughSpace built'
      | .copied items next' built' =>
        match copyLists start c fail inner (l + 1) ws next' built' with
        | .notEnoughSpace built'' => .notEnoughSpace built''
        | .copied ls next'' built'' =>
          .copied ((if start ≤ inner l then inner l else next + 1, { w with items := items }) :: ls)
            next'' built''

/-- the body of the loop over the slots, of values that are assigned -/
def copySlotTo (c : Constituent V) (fail : JoinCopyFail) (fromMe : JoinPairArray V) (i : Nat)
    (t : JoinTarget V) (next : Nat) : CopyEnd (JoinTarget V) :=
  let t := t.writeHash i (fromMe.data i).hash
  if (fromMe.data i).hash = JM_UNUSED then .ret t next
  else
    let t := t.writeNext i (fromMe.data i).next
    match fail (.value i) with
    | none =>
      .ret { t.writeValue i (c.copy (fromMe.data i).value next).1 with
        values := Function.update t.values i true } (c.copy (fromMe.data i).value next).2
    | some constructed => .notEnoughSpace { t with values := Function.update t.values i constructed }

def copySlotsTo (c : Constituent V) (fail : JoinCopyFail) (fromMe : JoinPairArray V) :
    List Nat → JoinTarget V → Nat → CopyEnd (JoinTarget V)
  | [], t, next => .ret t next
  | i :: is, t, next =>
    match copySlotTo c fail fromMe i t next with
    | .ret t next => copySlotsTo c fail fromMe is t next
    | .notEnoughSpace t => .notEnoughSpace t

/-- how a copy ends; the array of the overflows is at `outer`, and has `cap` elements -/
inductive JoinCopyEnd (V : Type*)
  | ret (t : JoinTarget V) (outer cap : Nat) (lists : List (Nat × PDBVector V))
  | notEnoughSpace (t : JoinTarget V)

/-- the slots, when the overflows are there -/
def finishCopy (c : Constituent V) (fail : JoinCopyFail) (fromMe : JoinPairArray V)
    (t : JoinTarget V) (outer cap : Nat) (lists : List (Nat × PDBVector V)) (next : Nat) :
    JoinCopyEnd V :=
  match copySlotsTo c fail fromMe (List.range fromMe.numSlots) t next with
  | .ret t _ => .ret t outer cap lists
  | .notEnoughSpace t => .notEnoughSpace t

/-- `toMe.overflows = fromMe.overflows` -/
def copyOverflows (start : Nat) (c : Constituent V) (fail : JoinCopyFail) (fromMe : StoredJoin V)
    (next : Nat) : ListEnd (Nat × PDBVector V) :=
  let items := fromMe.table.overflows.items
  if start ≤ fromMe.outer then
    .copied (items.mapIdx fun l w => (fromMe.inner l, w)) (next + 1) 0
  else if (fail .outer).isSome then .notEnoughSpace 0
  else copyLists start c fail fromMe.inner 0 items (next + 2) 0

/-- the memory of the copy; the fields that are not pointers are those of `fromMe` -/
def setUpAndCopyFrom (start : Nat) (c : Constituent V) (fail : JoinCopyFail) (fromMe : StoredJoin V)
    (t : JoinTarget V) (next : Nat) : JoinCopyEnd V :=
  -- in the constructor `valueTypeInfo` is set up after the overflows
  if (fail .overflows).isSome then .notEnoughSpace { t with descends := false }
  else
    let t := { t with descends := c.descendsFromObject }
    match copyOverflows start c fail fromMe next with
    | .notEnoughSpace built => .notEnoughSpace { t with lists := built }
    | .copied lists next' built =>
      let t := { t with lists := built }
      let outer := if start ≤ fromMe.outer then fromMe.outer else next + 1
      if !c.descendsFromObject then
        .ret { t with
          data := fun i =>
            if i < fromMe.table.numSlots then
              ⟨(fromMe.table.data i).hash, (fromMe.table.data i).next,
                c.moved (fromMe.table.data i).value⟩
            else t.data i } outer fromMe.table.overflows.numSlots lists
      else finishCopy c fail fromMe.table t outer fromMe.table.overflows.numSlots lists next'

/-- the copy, in the chunk `addr` -/
def copied (fromMe : JoinPairArray V) (addr : Nat) (t : JoinTarget V) (outer cap : Nat)
    (lists : List (Nat × PDBVector V)) : StoredJoin V :=
  ⟨{ fromMe with
      data := t.data
      overflows := ⟨fromMe.overflows.layout, cap, lists.map Prod.snd⟩ },
    addr, outer, fun l => (lists[l]?).elim 0 Prod.fst⟩

end JoinPairArray

/-- how the loop over the overflows in `deepCopyJoinMap` ends -/
inductive BucketEnd (V : Type*)
  | copied (l : List (Nat × PDBVector V)) (outer cap next built : Nat)
  | notEnoughSpace (built : Nat)

namespace JoinMap
variable {V : Type*}

/-- an array is made and filled for each list, and put into a new vector at the end of the overflows,
whose array, of `cap` elements, is at `outer` -/
def copyBuckets (c : Constituent V) (fail : JoinCopyFail) :
    Nat → Nat → Nat → List (PDBVector V) → Nat → Nat → BucketEnd V
  | cap, outer, _, [], next, built => .copied [] outer cap next built
  | cap, outer, l, w :: ws, next, built =>
    if (fail (.listArray l)).isSome then .notEnoughSpace built
    else
      match JoinPairArray.copyItems c (fun j => fail (.item l j)) 0 w.items (next + 1) built with
      | .notEnoughSpace built' => .notEnoughSpace built'
      | .copied items next' built' =>
        if (fail (.push l)).isSome then .notEnoughSpace built'
        else
          -- a full array is replaced, and the vectors in it are constructed once more
          match copyBuckets c fail (if l = cap then cap * 2 else cap)
              (if l = cap then next' else outer) (l + 1) ws (next' + 2)
              (built' + 1 + if l = cap then l else 0) with
          | .notEnoughSpace built'' => .notEnoughSpace built''
          | .copied ls outer' cap' next'' built'' =>
            .copied ((next, { w with items := items }) :: ls) outer' cap' next'' built''

/-- the array of the copy, whose memory is `t` -/
def deepCopyJoinMap (c : Constituent V) (fail : JoinCopyFail) (copyMe : JoinPairArray V)
    (t : JoinTarget V) (next : Nat) : JoinPairArray.JoinCopyEnd V :=
  if (fail .map).isSome || (fail .table).isSome then .notEnoughSpace { t with descends := false }
  else
    -- the overflows that the constructor made are not destroyed before they are constructed again
    let t := { t with descends := c.descendsFromObject, lists := 1 }
    if (fail .overflows).isSome then .notEnoughSpace t
    else
      match copyBuckets c fail 1 (next + 5) 0 copyMe.overflows.items (next + 6) 1 with
      | .notEnoughSpace built => .notEnoughSpace { t with lists := built }
      | .copied lists outer cap next' built =>
        JoinPairArray.finishCopy c fail copyMe { t with lists := built } outer cap lists next'

end JoinMap

/-! ## a copy that is finished -/

namespace JoinPairArray
section
variable {V : Type*} {c : Constituent V} {R : V → V → Prop} {M : V → Prop} {start i next : Nat}
  {fromMe : JoinPairArray V} {t : JoinTarget V}

/-- the elements of a list are assigned -/
theorem copyItems_spec (hc : c.Deep R start) (vs : List V) : ∀ {j next built : Nat},
    start ≤ next → (∀ v ∈ vs, M v) → (∀ v ∈ vs, ∀ x ∈ c.storage v, x < start) →
    ∃ vs' next' built', copyItems c (fun _ => none) j vs next built = .copied vs' next' built' ∧
      next ≤ next' ∧ List.Forall₂ (c.Copied R start M) vs' vs := by
  induction vs with
  | nil =>
    intro j next built _ _ _
    exact ⟨[], next, built, rfl, Nat.le_refl _, .nil⟩
  | cons v vs ih =>
    intro j next built hn hM hvs
    have hle := hc.grows v next
    obtain ⟨vs', n', b', hrun, hle', hcopied⟩ := @ih (j + 1) (c.copy v next).2 (built + 1)
      (hn.trans hle) (fun w hw => hM w (List.mem_cons_of_mem v hw))
      fun w hw => hvs w (List.mem_cons_of_mem v hw)
    refine ⟨(c.copy v next).1 :: vs', n', b', ?_, hle.trans hle',
      .cons (hc.of_assigned hn (hvs v List.mem_cons_self) (hM v List.mem_cons_self)) hcopied⟩
    simp only [copyItems, hrun]

/-- the copy of a list: its array is in the current block -/
def ListCopied (c : Constituent V) (R : V → V → Prop) (start : Nat) (M : V → Prop)
    (e : Nat × PDBVector V) (w : PDBVector V) : Prop :=
  start ≤ e.1 ∧ List.Forall₂ (c.Copied R start M) e.2.items w.items

/-- the lists lie in blocks other than the current one -/
def ListsElsewhere (c : Constituent V) (start : Nat) (ws : List (PDBVector V)) : Prop :=
  ∀ w ∈ ws, ∀ v ∈ w.items, ∀ x ∈ c.storage v, x < start

theorem copyLists_spec (hc : c.Deep R start) {inner : Nat → Nat} (ws : List (PDBVector V)) :
    ∀ {l next built : Nat}, start ≤ next → (∀ j, l ≤ j → j < l + ws.length → inner j < start) →
    ListsElsewhere c start ws →
    ∃ ls next' built', copyLists start c (fun _ => none) inner l ws next built =
        .copied ls next' built' ∧ next ≤ next' ∧
      List.Forall₂ (ListCopied c R start c.Movable) ls ws := by
  induction ws with
  | nil =>
    intro l next built _ _ _
    exact ⟨[], next, built, rfl, Nat.le_refl _, .nil⟩
  | cons w ws ih =>
    intro l next built hn hin hws
    have hl : ¬ start ≤ inner l := by
      have := hin l (Nat.le_refl _) (by rw [List.length_cons]; omega)
      omega
    obtain ⟨items, n₁, b₁, h₁, hle₁, hitems⟩ : ∃ items n₁ b₁,
        copyList start c (fun _ => none) inner l w next (built + 1) = .copied items n₁ b₁ ∧
          next + 2 ≤ n₁ ∧ List.Forall₂ (c.Copied R start c.Movable) items w.items := by
      unfold copyList
      simp only [if_neg hl, Option.isSome_none, Bool.false_eq_true, if_false]
      cases hobj : c.descendsFromObject with
      | false =>
        refine ⟨_, _, _, rfl, Nat.le_refl _, List.forall₂_map_left_iff.mpr ?_⟩
        exact List.forall₂_same.mpr fun v _ => hc.of_moved hobj v
      | true =>
        exact copyItems_spec hc w.items (by omega) (fun v _ => .inl hobj) (hws w List.mem_cons_self)
    obtain ⟨ls, n₂, b₂, h₂, hle₂, hls⟩ := @ih (l + 1) n₁ b₁ (by omega)
      (fun j hj hlt => hin j (by omega) (by rw [List.length_cons]; omega))
      fun w' hw' => hws w' (List.mem_cons_of_mem w hw')
    refine ⟨(next + 1, { w with items := items }) :: ls, n₂, b₂, ?_, by omega, .cons ⟨?_, hitems⟩ hls⟩
    · simp only [copyLists, Option.isSome_none, Bool.false_eq_true, if_false, if_neg hl, h₁, h₂]
    · show start ≤ next + 1
      omega

/-- slot `i` has been copied -/
structure SlotCopied (c : Constituent V) (R : V → V → Prop) (start : Nat) (M : V → Prop)
    (fromMe : JoinPairArray V) (r : JoinMapRecordClass V) (i : Nat) : Prop where
  hash : r.hash = (fromMe.data i).hash
  next : fromMe.Used i → r.next = (fromMe.data i).next
  value : fromMe.Used i → c.Copied R start M r.value (fromMe.data i).value

theorem copySlotTo_spec (hc : c.Deep R start) (hn : start ≤ next)
    (hM : fromMe.Used i → M (fromMe.data i).value)
    (hi : fromMe.Used i → ∀ x ∈ c.storage (fromMe.data i).value, x < start) (t : JoinTarget V) :
    ∃ t' next', copySlotTo c (fun _ => none) fromMe i t next = .ret t' next' ∧ next ≤ next' ∧
      SlotCopied c R start M fromMe (t'.data i) i ∧ ∀ j, j ≠ i → t'.data j = t.data j := by
  by_cases hu : fromMe.Used i
  · have hui : ¬ (fromMe.data i).hash = JM_UNUSED := hu
    obtain ⟨v, next', hcopy⟩ : ∃ v next', c.copy (fromMe.data i).value next = (v, next') :=
      ⟨_, _, rfl⟩
    have hcopied := hc.of_assigned hn (hi hu) (hM hu)
    have hle := hc.grows (fromMe.data i).value next
    rw [hcopy] at hcopied hle
    refine ⟨_, next', by simp only [copySlotTo, if_neg hui, hcopy]; rfl, hle, ?_, fun j e => ?_⟩
    · have hdata : (((t.writeHash i (fromMe.data i).hash).writeNext i (fromMe.data i).next).writeValue i
          v).data i = ⟨(fromMe.data i).hash, (fromMe.data i).next, v⟩ := by
        rw [JoinTarget.writeValue_self, JoinTarget.writeNext_self, JoinTarget.writeHash_self]
      rw [show ((({ ((t.writeHash i (fromMe.data i).hash).writeNext i
        (fromMe.data i).next).writeValue i v with values := _ } : JoinTarget V)).data i) = _ from hdata]
      exact ⟨rfl, fun _ => rfl, fun _ => hcopied⟩
    · show Function.update (Function.update (Function.update t.data i _) i _) i _ j = t.data j
      rw [Function.update_of_ne e, Function.update_of_ne e, Function.update_of_ne e]
  · refine ⟨t.writeHash i (fromMe.data i).hash, next, if_pos (not_not.mp hu), Nat.le_refl _, ?_,
      fun j e => Function.update_of_ne e _ _⟩
    rw [JoinTarget.writeHash_self]
    exact ⟨rfl, fun h => absurd h hu, fun h => absurd h hu⟩

theorem copySlotsTo_spec (hc : c.Deep R start)
    (hM : ∀ i, fromMe.Used i → M (fromMe.data i).value) (is : List Nat) :
    ∀ {next : Nat} {t : JoinTarget V}, is.Nodup → start ≤ next →
    (∀ i ∈ is, fromMe.Used i → ∀ x ∈ c.storage (fromMe.data i).value, x < start) →
    ∃ t' next', copySlotsTo c (fun _ => none) fromMe is t next = .ret t' next' ∧
      (∀ i ∈ is, SlotCopied c R start M fromMe (t'.data i) i) ∧
      ∀ j, j ∉ is → t'.data j = t.data j := by
  induction is with
  | nil =>
    intro next t _ _ _
    exact ⟨t, next, rfl, fun i hi => absurd hi List.not_mem_nil, fun _ _ => rfl⟩
  | cons i is ih =>
    intro next t hnd hn helse
    obtain ⟨hni, hnd'⟩ := List.nodup_cons.mp hnd
    obtain ⟨t₁, n₁, h₁, hle₁, hslot, hother⟩ :=
      copySlotTo_spec hc hn (hM i) (helse i List.mem_cons_self) t
    obtain ⟨t₂, n₂, h₂, hslots, hkeep⟩ := ih (t := t₁) hnd' (hn.trans hle₁)
      (fun j hj => helse j (List.mem_cons_of_mem i hj))
    refine ⟨t₂, n₂, ?_, fun j hj => ?_, fun j hj => ?_⟩
    · rw [copySlotsTo, h₁]
      exact h₂
    · rcases List.mem_cons.mp hj with rfl | hj
      · rw [hkeep _ hni]
        exact hslot
      · exact hslots j hj
    · rw [hkeep j fun hm => hj (List.mem_cons_of_mem i hm), hother j]
      rintro rfl
      exact hj List.mem_cons_self

/-- what a copy that is finished has written -/
structure TableCopied (c : Constituent V) (R : V → V → Prop) (start : Nat) (M : V → Prop)
    (fromMe : JoinPairArray V) (t : JoinTarget V) (outer : Nat) (lists : List (Nat × PDBVector V)) :
    Prop where
  outer : start ≤ outer
  lists : List.Forall₂ (ListCopied c R start M) lists fromMe.overflows.items
  slots : ∀ i < fromMe.numSlots, SlotCopied c R start M fromMe (t.data i) i

/-- the source is in blocks other than the current one -/
structure Elsewhere (c : Constituent V) (start : Nat) (s : StoredJoin V) : Prop where
  addr : s.addr < start
  outer : s.outer < start
  inner : ∀ l < s.table.overflows.items.length, s.inner l < start
  lists : ListsElsewhere c start s.table.overflows.items
  values : ∀ i < s.table.numSlots, s.table.Used i →
    ∀ x ∈ c.storage (s.table.data i).value, x < start

theorem finishCopy_spec (hc : c.Deep R start) (hn : start ≤ next)
    (hM : ∀ i, fromMe.Used i → M (fromMe.data i).value)
    (helse : ∀ i < fromMe.numSlots, fromMe.Used i → ∀ x ∈ c.storage (fromMe.data i).value, x < start)
    (t : JoinTarget V) (outer cap : Nat) (lists : List (Nat × PDBVector V)) :
    ∃ t', finishCopy c (fun _ => none) fromMe t outer cap lists next = .ret t' outer cap lists ∧
      ∀ i < fromMe.numSlots, SlotCopied c R start M fromMe (t'.data i) i := by
  obtain ⟨t', next', hrun, hslots, -⟩ := copySlotsTo_spec hc hM (List.range fromMe.numSlots) (t := t)
    List.nodup_range hn fun i hi => helse i (List.mem_range.mp hi)
  refine ⟨t', ?_, fun i hi => hslots i (List.mem_range.mpr hi)⟩
  rw [finishCopy, hrun]

/-- **`setUpAndCopyFrom`** that does not run out of space. -/
theorem setUpAndCopyFrom_spec {s : StoredJoin V} (hc : c.Deep R start) (hs : Elsewhere c start s)
    (hn : start ≤ next) (t : JoinTarget V) :
    ∃ t' outer cap lists, setUpAndCopyFrom start c (fun _ => none) s t next =
        .ret t' outer cap lists ∧
      TableCopied c R start c.Movable s.table t' outer lists := by
  have hout : ¬ start ≤ s.outer := by
    have := hs.outer
    omega
  obtain ⟨lists, n₁, b₁, hlists, hle, hcopied⟩ := @copyLists_spec V c R start hc s.inner
    s.table.overflows.items 0 (next + 2) 0 (by omega) (fun j _ hj => hs.inner j (by omega)) hs.lists
  unfold setUpAndCopyFrom copyOverflows
  simp only [Option.isSome_none, Bool.false_eq_true, if_false, if_neg hout, hlists]
  cases hobj : c.descendsFromObject with
  | false =>
    -- the bytes are moved
    refine ⟨_, next + 1, _, lists, rfl, by omega, hcopied, fun i hi => ?_⟩
    show SlotCopied c R start c.Movable s.table (if i < s.table.numSlots then
      ⟨(s.table.data i).hash, (s.table.data i).next, c.moved (s.table.data i).value⟩ else _) i
    rw [if_pos hi]
    exact ⟨rfl, fun _ => rfl, fun _ => hc.of_moved hobj _⟩
  | true =>
    obtain ⟨t', hrun, hslots⟩ := finishCopy_spec (M := c.Movable) hc (show start ≤ n₁ by omega)
      (fun i _ => .inl hobj) hs.values { t with descends := true, lists := b₁ } (next + 1)
      s.table.overflows.numSlots lists
    exact ⟨t', next + 1, _, lists, hrun, by omega, hcopied, hslots⟩

end
end JoinPairArray

namespace JoinMap
section
variable {V : Type*} {c : Constituent V} {R : V → V → Prop} {start next : Nat}

theorem copyBuckets_spec (hc : c.Deep R start) (ws : List (PDBVector V)) :
    ∀ {cap outer l next built : Nat}, start ≤ outer → start ≤ next →
    JoinPairArray.ListsElsewhere c start ws →
    ∃ ls outer' cap' next' built', copyBuckets c (fun _ => none) cap outer l ws next built =
        .copied ls outer' cap' next' built' ∧ start ≤ outer' ∧ next ≤ next' ∧
      List.Forall₂ (JoinPairArray.ListCopied c R start fun _ => True) ls ws := by
  induction ws with
  | nil =>
    intro cap outer l next built ho _ _
    exact ⟨[], outer, cap, next, built, rfl, ho, Nat.le_refl _, .nil⟩
  | cons w ws ih =>
    intro cap outer l next built ho hn hws
    obtain ⟨items, n₁, b₁, h₁, hle₁, hitems⟩ := @JoinPairArray.copyItems_spec V c R (fun _ => True)
      start hc w.items 0 (next + 1) built (by omega) (fun _ _ => trivial) (hws w List.mem_cons_self)
    have ho' : start ≤ if l = cap then n₁ else outer := by
      split
      · omega
      · exact ho
    obtain ⟨ls, o₂, cap₂, n₂, b₂, h₂, ho₂, hle₂, hls⟩ := @ih (if l = cap then cap * 2 else cap)
      (if l = cap then n₁ else outer) (l + 1) (n₁ + 2) (b₁ + 1 + if l = cap then l else 0) ho'
      (by omega) fun w' hw' => hws w' (List.mem_cons_of_mem w hw')
    refine ⟨(next, { w with items := items }) :: ls, o₂, cap₂, n₂, b₂, ?_, ho₂, by omega,
      .cons ⟨hn, hitems⟩ hls⟩
    simp only [copyBuckets, Option.isSome_none, Bool.false_eq_true, if_false, h₁, h₂]

/-- **`deepCopyJoinMap`** that does not run out of space. -/
theorem deepCopyJoinMap_spec {s : StoredJoin V} (hc : c.Deep R start)
    (hs : JoinPairArray.Elsewhere c start s) (hn : start ≤ next) (t : JoinTarget V) :
    ∃ t' outer cap lists, deepCopyJoinMap c (fun _ => none) s.table t next =
        .ret t' outer cap lists ∧
      JoinPairArray.TableCopied c R start (fun _ => True) s.table t' outer lists := by
  obtain ⟨lists, outer, cap, n₁, b₁, hlists, ho, hle, hcopied⟩ := @copyBuckets_spec V c R start hc
    s.table.overflows.items 1 (next + 5) 0 (next + 6) 1 (by omega) (by omega) hs.lists
  obtain ⟨t', hrun, hslots⟩ := JoinPairArray.finishCopy_spec (M := fun _ => True) hc
    (show start ≤ n₁ by omega) (fun _ _ => trivial) hs.values
    { t with descends := c.descendsFromObject, lists := b₁ } outer cap lists
  refine ⟨t', outer, cap, lists, ?_, ho, hcopied, hslots⟩
  simp only [deepCopyJoinMap, Option.isSome_none, Bool.or_self, Bool.false_eq_true, if_false, hlists]
  exact hrun

end
end JoinMap

/-! ## the copy as a table -/

namespace JoinPairArray
section
variable {V : Type*} {c : Constituent V} {R : V → V → Prop} {M : V → Prop}
  {start i addr outer cap : Nat} {fromMe : JoinPairArray V} {t : JoinTarget V}
  {lists : List (Nat × PDBVector V)} {l' l : List V}

theorem usable_of_copied (h : List.Forall₂ (c.Copied R start M) l' l) (hM : ∀ v ∈ l, M v) :
    List.Forall₂ R l' l ∧ ∀ v ∈ l', ∀ x ∈ c.storage v, start ≤ x := by
  induction h with
  | nil => exact ⟨.nil, fun v hv => absurd hv List.not_mem_nil⟩
  | cons hxy _ ih =>
    obtain ⟨hsame, hfresh⟩ := hxy.good (hM _ List.mem_cons_self)
    obtain ⟨hl, hlf⟩ := ih fun v hv => hM v (List.mem_cons_of_mem _ hv)
    refine ⟨.cons hsame hl, fun v hv => ?_⟩
    rcases List.mem_cons.mp hv with rfl | hv
    · exact hfresh
    · exact hlf v hv

theorem movable_of_same (h : List.Forall₂ (c.Copied R start M) l' l) (hR : List.Forall₂ R l' l) :
    ∀ v ∈ l, M v := by
  induction h with
  | nil =>
    intro v hv
    exact absurd hv List.not_mem_nil
  | cons hxy _ ih =>
    obtain ⟨hsame, hl⟩ := List.forall₂_cons.mp hR
    intro v hv
    rcases List.mem_cons.mp hv with rfl | hv
    · exact not_not.mp fun hno => hxy.bad hno hsame
    · exact ih hl v hv

theorem used_copied (h : SlotCopied c R start M fromMe (t.data i) i) :
    (copied fromMe addr t outer cap lists).table.Used i ↔ fromMe.Used i := by
  rw [Used, Used]
  show (t.data i).hash ≠ JM_UNUSED ↔ _
  rw [h.hash]

theorem overflowItems_copied
    (h : List.Forall₂ (ListCopied c R start M) lists fromMe.overflows.items) (k : Nat) :
    List.Forall₂ (c.Copied R start M)
      ((copied fromMe addr t outer cap lists).table.overflowItems k) (fromMe.overflowItems k) := by
  unfold overflowItems
  show List.Forall₂ _ (((lists.map Prod.snd)[k]?).elim [] PDBVector.items) _
  rw [List.getElem?_map]
  have hk := forall₂_getElem? h k
  generalize lists[k]? = x, fromMe.overflows.items[k]? = y at hk ⊢
  cases hk with
  | none => exact .nil
  | some he => exact he.2

/-- the values of a slot -/
theorem recordList_copied (h : TableCopied c R start M fromMe t outer lists)
    (hi : i < fromMe.numSlots) :
    List.Forall₂ (c.Copied R start M) ((copied fromMe addr t outer cap lists).table.recordList i)
      (fromMe.recordList i) := by
  have hslot := h.slots i hi
  have huse : (copied fromMe addr t outer cap lists).table.Used i ↔ fromMe.Used i := used_copied hslot
  by_cases hu : fromMe.Used i
  · have hover : ∀ k, List.Forall₂ (c.Copied R start M)
        ((copied fromMe addr t outer cap lists).table.overflowItems k) (fromMe.overflowItems k) :=
      overflowItems_copied h.lists
    have hlen : (lists.map Prod.snd).length = fromMe.overflows.items.length := by
      rw [List.length_map, h.lists.length_eq]
    have hsize : (copied fromMe addr t outer cap lists).table.recordListSize i =
        fromMe.recordListSize i := by
      unfold recordListSize
      rw [show ((copied fromMe addr t outer cap lists).table.data i).next = (t.data i).next from rfl,
        hslot.next hu, if_neg (huse.mpr hu), if_neg hu, (hover _).length_eq,
        show (copied fromMe addr t outer cap lists).table.overflows.items = lists.map Prod.snd from rfl,
        hlen]
    unfold recordList
    rw [hsize]
    refine List.rel_filterMap (R := Eq) ?_ (List.forall₂_same.mpr fun _ _ => rfl)
    rintro k _ rfl
    unfold recordListGet
    by_cases hk : k = 0
    · rw [if_pos hk, if_pos hk]
      exact .some (hslot.value hu)
    · rw [if_neg hk, if_neg hk,
        show ((copied fromMe addr t outer cap lists).table.data i).next = (t.data i).next from rfl,
        hslot.next hu]
      exact forall₂_getElem? (hover _) _
  · rw [recordList_unused hu, recordList_unused (mt huse.mp hu)]
    exact .nil

theorem findSlot_copied (h2 : 2 ≤ fromMe.numSlots) (h : TableCopied c R start M fromMe t outer lists)
    (hv : Nat) :
    (copied fromMe addr t outer cap lists).table.findSlot hv = fromMe.findSlot hv := by
  have hhome : hv % (fromMe.numSlots - 1) < fromMe.numSlots := by
    have := Nat.mod_lt hv (show 0 < fromMe.numSlots - 1 by omega)
    omega
  refine probe_congr (fun x hx => ?_) _ hhome
  show ((t.data x).hash == JM_UNUSED || (t.data x).hash == hv) = _
  rw [(h.slots x hx).hash]

theorem findSlot_lt (h2 : 2 ≤ fromMe.numSlots) {hv slot : Nat} (h : fromMe.findSlot hv = some slot) :
    slot < fromMe.numSlots := by
  have hhome : hv % (fromMe.numSlots - 1) < fromMe.numSlots := by
    have := Nat.mod_lt hv (show 0 < fromMe.numSlots - 1 by omega)
    omega
  obtain ⟨-, d, -, rfl, -⟩ := probe_some _ hhome h
  exact Nat.mod_lt _ (by omega)

theorem iterationOrder_copied (h : TableCopied c R start M fromMe t outer lists) :
    (copied fromMe addr t outer cap lists).table.iterationOrder = fromMe.iterationOrder := by
  unfold iterationOrder
  refine congrArg _ (List.filterMap_congr fun i hi => ?_)
  show (if (t.data i).hash ≠ JM_UNUSED then some (i, (t.data i).hash) else none) = _
  rw [(h.slots i (List.mem_range.mp hi)).hash]

theorem mem_iterationOrder {x : Nat × Nat} : x ∈ fromMe.iterationOrder ↔
    x.1 < fromMe.numSlots ∧ fromMe.Used x.1 ∧ (fromMe.data x.1).hash = x.2 := by
  rw [iterationOrder, (List.perm_insertionSort ByHash _).mem_iff, List.mem_filterMap]
  constructor
  · rintro ⟨i, hi, hx⟩
    split_ifs at hx with hu
    cases hx
    exact ⟨List.mem_range.mp hi, hu, rfl⟩
  · rintro ⟨hi, hu, hh⟩
    refine ⟨x.1, List.mem_range.mpr hi, ?_⟩
    have hui : (fromMe.data x.1).hash ≠ JM_UNUSED := hu
    rw [if_pos hui, hh]

/-- a value of a record list is in the slot or in a list of overflows -/
theorem mem_recordList {v : V} (h : v ∈ fromMe.recordList i) :
    fromMe.Used i ∧ (v = (fromMe.data i).value ∨ ∃ w ∈ fromMe.overflows.items, v ∈ w.items) := by
  have hu : fromMe.Used i := by
    intro hu
    rw [recordList_unused (not_not.mpr hu)] at h
    exact absurd h List.not_mem_nil
  obtain ⟨k, -, hk⟩ := List.mem_filterMap.mp h
  unfold recordListGet at hk
  split_ifs at hk with h0
  · exact ⟨hu, .inl (Option.some.inj hk).symm⟩
  · refine ⟨hu, .inr ?_⟩
    have hmem := List.mem_of_getElem? hk
    unfold overflowItems at hmem
    cases hw : fromMe.overflows.items[(fromMe.data i).next]? with
    | none =>
      rw [hw] at hmem
      exact absurd hmem List.not_mem_nil
    | some w =>
      rw [hw] at hmem
      exact ⟨w, List.mem_of_getElem? hw, hmem⟩

/-- the condition on the values of a table -/
def Movable (M : V → Prop) (a : JoinPairArray V) : Prop :=
  ∀ i < a.numSlots, ∀ v ∈ a.recordList i, M v

end
end JoinPairArray

/-- the chunks of a table and of its values -/
def StoredJoin.storage {V : Type*} (c : Constituent V) (s : StoredJoin V) : Set Nat :=
  {x | x = s.addr ∨ x = s.outer ∨ (∃ l < s.table.overflows.items.length, x = s.inner l) ∨
    ∃ i < s.table.numSlots, ∃ v ∈ s.table.recordList i, x ∈ c.storage v}

namespace JoinMap
section
variable {V : Type*} [Inhabited V] {c : Constituent V} {R : V → V → Prop} {M : V → Prop}
  {start addr outer cap : Nat} {m : JoinMap V} {s : StoredJoin V} {t : JoinTarget V}
  {lists : List (Nat × PDBVector V)}

/-- `m'` cannot be told from `m`, as long as values that are in the relation `R` cannot -/
structure CopyOf (R : V → V → Prop) (m' m : JoinMap V) : Prop where
  count : ∀ me, m'.count me = m.count me
  lookup : ∀ me, Option.Rel (List.Forall₂ R) (m'.lookup me) (m.lookup me)
  size : m'.size = m.size
  maxSlots : m'.myArray.maxSlots = m.myArray.maxSlots
  numSlots : m'.myArray.numSlots = m.myArray.numSlots
  iterate : List.Forall₂ (fun x y => x.1 = y.1 ∧ List.Forall₂ R x.2 y.2) m'.iterate m.iterate

theorem copyOf_copied (h2 : 2 ≤ m.myArray.numSlots)
    (h : JoinPairArray.TableCopied c R start M m.myArray t outer lists)
    (hM : m.myArray.Movable M) :
    CopyOf R (m.setArray (m.myArray.copied addr t outer cap lists).table) m := by
  have hfind : ∀ hv, (m.myArray.copied addr t outer cap lists).table.findSlot hv =
      m.myArray.findSlot hv := JoinPairArray.findSlot_copied h2 h
  have hrec : ∀ i < m.myArray.numSlots, List.Forall₂ R
      ((m.myArray.copied addr t outer cap lists).table.recordList i) (m.myArray.recordList i) :=
    fun i hi => (JoinPairArray.usable_of_copied (JoinPairArray.recordList_copied h hi) (hM i hi)).1
  refine ⟨fun me => ?_, fun me => ?_, rfl, rfl, rfl, ?_⟩
  · show (m.myArray.copied addr t outer cap lists).table.count me = m.myArray.count me
    rw [JoinPairArray.count, JoinPairArray.count, hfind]
    cases hf : m.myArray.findSlot (hashValOf me) with
    | none => rfl
    | some slot =>
      have hslot := h.slots slot (JoinPairArray.findSlot_lt h2 hf)
      have hover := (@JoinPairArray.overflowItems_copied V c R M start addr outer cap m.myArray t lists
        h.lists (m.myArray.data slot).next).length_eq
      dsimp only
      rw [show ((m.myArray.copied addr t outer cap lists).table.data slot) = t.data slot from rfl,
        hslot.hash]
      by_cases hu : m.myArray.Used slot
      · rw [hslot.next hu, hover]
      · rw [if_pos (not_not.mp hu), if_pos (not_not.mp hu)]
  · show Option.Rel _ ((m.myArray.copied addr t outer cap lists).table.lookup me)
      (m.myArray.lookup me)
    rw [JoinPairArray.lookup, JoinPairArray.lookup, hfind]
    cases hf : m.myArray.findSlot (hashValOf me) with
    | none => exact .none
    | some slot => exact .some (hrec slot (JoinPairArray.findSlot_lt h2 hf))
  · show List.Forall₂ _ (m.myArray.copied addr t outer cap lists).table.iterate m.myArray.iterate
    rw [JoinPairArray.iterate, JoinPairArray.iterate, JoinPairArray.iterationOrder_copied h,
      List.forall₂_map_left_iff, List.forall₂_map_right_iff]
    refine List.forall₂_same.mpr fun x hx => ?_
    obtain ⟨hi, -, -⟩ := JoinPairArray.mem_iterationOrder.mp hx
    exact ⟨(h.slots x.1 hi).hash, hrec x.1 hi⟩

/-- what the iteration over the copy shows of the values -/
theorem movable_of_copyOf (h : JoinPairArray.TableCopied c R start M m.myArray t outer lists)
    (hcopy : CopyOf R (m.setArray (m.myArray.copied addr t outer cap lists).table) m) :
    m.myArray.Movable M := by
  have hiter : List.Forall₂ (fun x y => x.1 = y.1 ∧ List.Forall₂ R x.2 y.2)
      (m.myArray.copied addr t outer cap lists).table.iterate m.myArray.iterate := hcopy.iterate
  rw [JoinPairArray.iterate, JoinPairArray.iterate, JoinPairArray.iterationOrder_copied h,
    List.forall₂_map_left_iff, List.forall₂_map_right_iff] at hiter
  intro i hi v hv
  obtain ⟨hu, -⟩ := JoinPairArray.mem_recordList hv
  have hx := List.forall₂_same.mp hiter (i, (m.myArray.data i).hash)
    (JoinPairArray.mem_iterationOrder.mpr ⟨hi, hu, rfl⟩)
  exact JoinPairArray.movable_of_same (JoinPairArray.recordList_copied h hi) hx.2 v hv

/-- the source and the copy have no chunk in common -/
theorem disjoint_copied (hs : JoinPairArray.Elsewhere c start s) (ha : start ≤ addr)
    (h : JoinPairArray.TableCopied c R start M s.table t outer lists) (hM : s.table.Movable M) :
    Disjoint ((s.table.copied addr t outer cap lists).storage c) (s.storage c) := by
  refine Set.disjoint_left.mpr fun x hx hx' => ?_
  have hlt : x < start := by
    obtain rfl | rfl | ⟨l, hl, rfl⟩ | ⟨i, hi, v, hv, hx'⟩ := hx'
    · exact hs.addr
    · exact hs.outer
    · exact hs.inner l hl
    · obtain ⟨hu, rfl | ⟨w, hw, hv⟩⟩ := JoinPairArray.mem_recordList hv
      · exact hs.values i hi hu x hx'
      · exact hs.lists w hw v hv x hx'
  have hge : start ≤ x := by
    obtain rfl | rfl | ⟨l, hl, rfl⟩ | ⟨i, hi, v, hv, hx⟩ := hx
    · exact ha
    · exact h.outer
    · have hl' : l < lists.length := by
        rw [← List.length_map (f := Prod.snd)]
        exact hl
      show start ≤ (lists[l]?).elim 0 Prod.fst
      have hget := forall₂_getElem? h.lists l
      rw [List.getElem?_eq_getElem hl'] at hget ⊢
      generalize s.table.overflows.items[l]? = y at hget
      cases hget with
      | some he => exact he.1
    · exact (JoinPairArray.usable_of_copied (JoinPairArray.recordList_copied h hi) (hM i hi)).2 v hv x
        hx
  omega

/-- **A copy of a map of joins** by `setUpAndCopyFrom`, in the chunk `addr` of the current block. -/
theorem setUpAndCopyFrom_same {next : Nat} {inner : Nat → Nat} {addr' : Nat} (hc : c.Deep R start)
    (h2 : 2 ≤ m.myArray.numSlots)
    (hs : JoinPairArray.Elsewhere c start ⟨m.myArray, addr', outer, inner⟩) (ha : start ≤ addr)
    (hn : start ≤ next) (t : JoinTarget V) :
    ∃ t' outer' cap lists, JoinPairArray.setUpAndCopyFrom start c (fun _ => none)
        ⟨m.myArray, addr', outer, inner⟩ t next = .ret t' outer' cap lists ∧
      (CopyOf R (m.setArray (m.myArray.copied addr t' outer' cap lists).table) m ∧
        Disjoint ((m.myArray.copied addr t' outer' cap lists).storage c)
          (StoredJoin.storage c ⟨m.myArray, addr', outer, inner⟩) ↔
        m.myArray.Movable c.Movable) := by
  obtain ⟨t', outer', cap, lists, hrun, hcopied⟩ :=
    JoinPairArray.setUpAndCopyFrom_spec hc hs hn t
  exact ⟨t', outer', cap, lists, hrun, fun h => movable_of_copyOf hcopied h.1,
    fun hM => ⟨copyOf_copied h2 hcopied hM, disjoint_copied hs ha hcopied hM⟩⟩

/-- **A copy of a map of joins** by `deepCopyJoinMap`: every value is assigned. -/
theorem deepCopyJoinMap_same {next : Nat} {inner : Nat → Nat} {addr' : Nat} (hc : c.Deep R start)
    (h2 : 2 ≤ m.myArray.numSlots)
    (hs : JoinPairArray.Elsewhere c start ⟨m.myArray, addr', outer, inner⟩) (ha : start ≤ addr)
    (hn : start ≤ next) (t : JoinTarget V) :
    ∃ t' outer' cap lists, deepCopyJoinMap c (fun _ => none) m.myArray t next =
        .ret t' outer' cap lists ∧
      CopyOf R (m.setArray (m.myArray.copied addr t' outer' cap lists).table) m ∧
      Disjoint ((m.myArray.copied addr t' outer' cap lists).storage c)
        (StoredJoin.storage c ⟨m.myArray, addr', outer, inner⟩) := by
  obtain ⟨t', outer', cap, lists, hrun, hcopied⟩ :=
    deepCopyJoinMap_spec (s := ⟨m.myArray, addr', outer, inner⟩) hc hs hn t
  have hM : m.myArray.Movable fun _ => True := fun _ _ _ _ => trivial
  exact ⟨t', outer', cap, lists, hrun, copyOf_copied h2 hcopied hM, disjoint_copied hs ha hcopied hM⟩

end
end JoinMap

section
variable {K V W : Type*} [BEq K] [Hashable K] [EquivBEq K] [LawfulHashable K] [Inhabited K]
  [Inhabited V] [Inhabited W]

/-- **A deep copy in another block** is the same table in other storage if and only if no value with
a handle is copied byte for byte; `deepCopyJoinMap` copies none so. -/
theorem deepCopy_means {ck : Constituent K} {cv : Constituent V} {cw : Constituent W}
    {R : V → V → Prop} {S : W → W → Prop} {start addr next : Nat}
    (hk : ck.Deep (fun x y => (x == y) = true) start) (hv : cv.Deep R start) (hw : cw.Deep S start)
    (ha : start ≤ addr) (hn : start ≤ next) :
    (∀ (m : PDBMap K V) (addr' : Nat) (t : PairTarget K V), m.Called →
      (∀ x ∈ m.storage ck cv addr', x < start) →
      ∃ t' next', PairArray.setUpAndCopyFrom ck cv (fun _ => none) m.myArray t next = .ret t' next' ∧
        (PDBMap.CopyOf R ⟨m.myArray.copied t'⟩ m ∧
          Disjoint ((⟨m.myArray.copied t'⟩ : PDBMap K V).storage ck cv addr)
            (m.storage ck cv addr') ↔ m.Movable ck cv)) ∧
    (∀ (m : JoinMap W) (addr' outer : Nat) (inner : Nat → Nat) (t : JoinTarget W),
      2 ≤ m.myArray.numSlots → JoinPairArray.Elsewhere cw start ⟨m.myArray, addr', outer, inner⟩ →
      (∃ t' outer' cap lists, JoinPairArray.setUpAndCopyFrom start cw (fun _ => none)
          ⟨m.myArray, addr', outer, inner⟩ t next = .ret t' outer' cap lists ∧
        (JoinMap.CopyOf S (m.setArray (m.myArray.copied addr t' outer' cap lists).table) m ∧
          Disjoint ((m.myArray.copied addr t' outer' cap lists).storage cw)
            (StoredJoin.storage cw ⟨m.myArray, addr', outer, inner⟩) ↔
          m.myArray.Movable cw.Movable)) ∧
      ∃ t' outer' cap lists, JoinMap.deepCopyJoinMap cw (fun _ => none) m.myArray t next =
          .ret t' outer' cap lists ∧
        JoinMap.CopyOf S (m.setArray (m.myArray.copied addr t' outer' cap lists).table) m ∧
        Disjoint ((m.myArray.copied addr t' outer' cap lists).storage cw)
          (StoredJoin.storage cw ⟨m.myArray, addr', outer, inner⟩)) :=
  ⟨fun _ _ t hm hs => PDBMap.deepCopy_same hk hv hm hs ha hn t, fun _ _ _ _ t h2 hs =>
    ⟨JoinMap.setUpAndCopyFrom_same hw h2 hs ha hn t,
      JoinMap.deepCopyJoinMap_same hw h2 hs ha hn t⟩⟩

end

/-- a tuple of a join, which does not descend from `Object`, with a string in the chunk `chunk` -/
inductive StringTuple
  | plain (n : Nat)
  | string (text chunk : Nat)
  /-- the offset leads to no string -/
  | dangling
deriving DecidableEq, Repr

instance : Inhabited StringTuple := ⟨.plain 0⟩

namespace StringTuple

def text : StringTuple → Option Nat
  | .plain n => some n
  | .string text _ => some text
  | .dangling => none

def SameText (x y : StringTuple) : Prop := x.text = y.text

def type : Constituent StringTuple where
  descendsFromObject := false
  copy := fun
    | .string text _, next => (.string text next, next + 1)
    | v, next => (v, next)
  moved := fun
    | .string _ _ => .dangling
    | v => v
  storage := fun
    | .string _ chunk => {chunk}
    | _ => ∅

theorem type_deep (start : Nat) : type.Deep SameText start where
  same := by
    intro v next _ _
    cases v <;> rfl
  grows := by
    intro v next
    cases v with
    | string text chunk => exact Nat.le_succ next
    | plain n => exact Nat.le_refl next
    | dangling => exact Nat.le_refl next
  fresh := by
    intro v next hn _ x hx
    cases v with
    | string text chunk => exact (Set.mem_singleton_iff.mp hx) ▸ hn
    | plain n => exact absurd hx (Set.notMem_empty x)
    | dangling => exact absurd hx (Set.notMem_empty x)
  moved := by
    intro v hv
    cases v with
    | string text chunk => exact absurd hv (Set.singleton_ne_empty chunk)
    | plain n => exact ⟨rfl, rfl⟩
    | dangling => exact ⟨rfl, rfl⟩
  dangles := by
    intro v hv h
    cases v with
    | string text chunk => cases h
    | plain n => exact hv rfl
    | dangling => exact hv rfl

end StringTuple

/-- numbers -/
def numberType : Constituent Nat := ⟨false, fun v next => (v, next), id, fun _ => ∅⟩

theorem numberType_deep (start : Nat) : numberType.Deep (fun x y => (x == y) = true) start where
  same := fun v _ _ _ => beq_self_eq_true v
  grows := fun _ next => Nat.le_refl next
  fresh := fun _ _ _ _ x hx => absurd hx (Set.notMem_empty x)
  moved := fun v _ => ⟨beq_self_eq_true v, rfl⟩
  dangles := fun _ hv => absurd rfl hv

/-- the string `7`, in the chunk `3`, under the hash `5` -/
def oneString : Option (JoinMap StringTuple) :=
  (JoinMap.create smallLayouts 4 0 1).bind fun m =>
    match m.push (fun _ => false) 5 with
    | .ret m' r => some (m'.setValue r (.string 7 3))
    | _ => none

/-- memory that is not initialised -/
def rawJoin : JoinTarget StringTuple :=
  ⟨fun _ => ⟨0, 0, .dangling⟩, false, fun _ => false, 0⟩

/-- the block of the map is the chunks up to `9` -/
theorem oneString_elsewhere {m : JoinMap StringTuple} (h : oneString = some m) :
    2 ≤ m.myArray.numSlots ∧ m.lookup 5 = some [.string 7 3] ∧
      JoinPairArray.Elsewhere StringTuple.type 10 ⟨m.myArray, 0, 1, fun _ => 2⟩ := by
  have hrun : oneString.all (fun m => decide (m.lookup 5 = some [.string 7 3] ∧
      m.myArray.overflows.items.length = 0 ∧ m.myArray.numSlots = 4 ∧
      ∀ i : Fin 4, (m.myArray.data i).hash ≠ JM_UNUSED →
        (m.myArray.data i).value = .string 7 3)) = true := by decide +kernel
  rw [h] at hrun
  obtain ⟨hlook, hnil, hfour, hval⟩ := of_decide_eq_true hrun
  have h2 : 2 ≤ m.myArray.numSlots := by omega
  refine ⟨h2, hlook, show 0 < 10 by decide, show 1 < 10 by decide, fun l hl => ?_,
    fun w hw => ?_, fun i hi hu x hx => ?_⟩
  · exact absurd hl (by rw [show _ = 0 from hnil]; exact Nat.not_lt_zero l)
  · rw [show (_ : List (PDBVector StringTuple)) = [] from List.length_eq_zero_iff.mp hnil] at hw
    exact absurd hw List.not_mem_nil
  · have hi' : i < 4 := hfour ▸ hi
    rw [show (_ : StringTuple) = .string 7 3 from hval ⟨i, hi'⟩ hu] at hx
    rw [Set.mem_singleton_iff.mp hx]
    decide

/-- a map of one number, and a map of joins with a string that is copied by assignment -/
theorem deepCopy_means_assigned :
    (∃ (m : PDBMap Nat Nat) (t' : PairTarget Nat Nat), m.iterate = [(5, 0)] ∧
      PDBMap.CopyOf (fun x y => (x == y) = true) ⟨m.myArray.copied t'⟩ m) ∧
    ∃ (m : JoinMap StringTuple) (t' : JoinTarget StringTuple) (outer' cap : Nat)
      (lists : List (Nat × PDBVector StringTuple)), m.lookup 5 = some [.string 7 3] ∧
      JoinMap.deepCopyJoinMap StringTuple.type (fun _ => none) m.myArray rawJoin 20 =
        .ret t' outer' cap lists ∧
      JoinMap.CopyOf StringTuple.SameText
        (m.setArray (m.myArray.copied 10 t' outer' cap lists).table) m := by
  obtain ⟨hmap, hjoin⟩ := deepCopy_means (numberType_deep 10)
    (numberType_deep 10) (StringTuple.type_deep 10) (show 10 ≤ 10 by decide)
    (show 10 ≤ 20 by decide)
  constructor
  · have hrun : ((PDBMap.create (K := Nat) (V := Nat) ⟨16, 32, 0, by decide⟩ 4).bind fun m =>
        (m.index (fun _ => false) 5).ret?.map fun m' => m'.iterate) = some [(5, 0)] := by decide +kernel
    obtain ⟨m, hm, hrun⟩ := Option.bind_eq_some_iff.mp hrun
    cases hidx : m.index (fun _ => false) 5 with
    | fatal =>
      rw [hidx] at hrun
      cases hrun
    | notEnoughSpace b =>
      rw [hidx] at hrun
      cases hrun
    | ret m' slot =>
      rw [hidx] at hrun
      have hcalled : m'.Called := .index (.create hm) hidx
      obtain ⟨t', next', -, hiff⟩ := hmap m' 0 ⟨fun _ => ⟨0, 0, 0⟩, fun _ => false, fun _ => false⟩
        hcalled (by
          rintro x (rfl | ⟨i, -, -, hx | hx⟩)
          · decide
          · exact absurd hx (Set.notMem_empty x)
          · exact absurd hx (Set.notMem_empty x))
      exact ⟨m', t', Option.some.inj hrun, (hiff.mpr fun i _ _ => ⟨.inr rfl, .inr rfl⟩).1⟩
  · cases hm : oneString with
    | none =>
      have hsome : oneString.isSome = true := by decide +kernel
      rw [hm] at hsome
      cases hsome
    | some m =>
      obtain ⟨h2, hlook, helse⟩ := oneString_elsewhere hm
      obtain ⟨-, t', outer', cap, lists, hrun, hcopy, -⟩ := hjoin m 0 1 (fun _ => 2) rawJoin h2 helse
      exact ⟨m, t', outer', cap, lists, hlook, hrun, hcopy⟩

/-- **The same string, copied by `setUpAndCopyFrom`**: its bytes are moved, and `lookup` finds no
string -/
theorem deepCopy_not_always :
    ∃ (m : JoinMap StringTuple) (t' : JoinTarget StringTuple) (outer' cap : Nat)
      (lists : List (Nat × PDBVector StringTuple)), m.lookup 5 = some [.string 7 3] ∧
      JoinPairArray.Elsewhere StringTuple.type 10 ⟨m.myArray, 0, 1, fun _ => 2⟩ ∧
      JoinPairArray.setUpAndCopyFrom 10 StringTuple.type (fun _ => none)
        ⟨m.myArray, 0, 1, fun _ => 2⟩ rawJoin 20 = .ret t' outer' cap lists ∧
      (m.setArray (m.myArray.copied 10 t' outer' cap lists).table).lookup 5 = some [.dangling] ∧
      ¬ JoinMap.CopyOf StringTuple.SameText
        (m.setArray (m.myArray.copied 10 t' outer' cap lists).table) m := by
  have hrun : (oneString.bind fun m =>
      match JoinPairArray.setUpAndCopyFrom 10 StringTuple.type (fun _ => none)
        ⟨m.myArray, 0, 1, fun _ => 2⟩ rawJoin 20 with
      | .ret t' outer' cap lists =>
        (m.setArray (m.myArray.copied 10 t' outer' cap lists).table).lookup 5
      | .notEnoughSpace _ => none) = some [.dangling] := by decide +kernel
  obtain ⟨m, hm, hrun⟩ := Option.bind_eq_some_iff.mp hrun
  obtain ⟨-, hlook, helse⟩ := oneString_elsewhere hm
  cases hcopy : JoinPairArray.setUpAndCopyFrom 10 StringTuple.type (fun _ => none)
      ⟨m.myArray, 0, 1, fun _ => 2⟩ rawJoin 20 with
  | notEnoughSpace b =>
    rw [hcopy] at hrun
    cases hrun
  | ret t' outer' cap lists =>
    rw [hcopy] at hrun
    refine ⟨m, t', outer', cap, lists, hlook, helse, hcopy, hrun, fun h => ?_⟩
    have hsame := h.lookup 5
    have hlook' : (m.setArray (m.myArray.copied 10 t' outer' cap lists).table).lookup 5 =
        some [.dangling] := hrun
    rw [hlook, hlook', Option.rel_some_some] at hsame
    cases (List.forall₂_cons.mp hsame).1

end Netsdb
