import Mathlib.Data.List.Basic
import Mathlib.Data.List.Count
import Mathlib.Data.List.Nodup
import Mathlib.Data.List.Perm.Basic
import Mathlib.Data.List.Range

/-!
# The types of join tuples (`JoinTuple.h`)

`findCorrectJoinTuple` nests the types of the columns from the inside to the outside, and writes down where
each slot comes from on the way back.

* `findCorrectJoinTuple`       the type, the names and the map of the columns;
* `Tuple.pack`, `Tuple.unpack` a row copied to a tuple, and back;
* `Layout`                     the slots and the columns, by the map;
* `joinTuple_layout`           the map is right for all that goes through the slots.
-/

set_option linter.unusedSectionVars false

namespace Netsdb.JoinTuples

/-! ## The types -/

/-- `getTypeName<Handle<In>> ()`; a type is told by its name -/
def getTypeName (t : String) : String := "pdb::Handle<" ++ t ++ ">"

/-- `JoinTuple<HoldMe, char[0]>` or `JoinTuple<HoldMe, MeTo>` -/
inductive TupleType
  | last (holdMe : String)
  | nest (holdMe : String) (meTo : TupleType)
deriving DecidableEq

/-- the slots, from the outside to the inside -/
def TupleType.slots : TupleType → List String
  | last t => [t]
  | nest t meTo => t :: meTo.slots

/-- the first column of the type, and the names without it; `none`: -1 -/
def findType (findMe : String) (typeList : List String) : Option (ℕ × List String) :=
  (typeList.findIdx? (· == findMe)).map fun i => (i, typeList.set i "")

/-- with a join tuple in front -/
def findInto : TupleType → List String → List String × List ℕ → TupleType × List String × List ℕ
  | in1, [], s => (in1, s)
  | in1, in2 :: rest, (typeList, whereEveryoneGoes) =>
    match findType (getTypeName in2) typeList with
    | some (in2Pos, typeList) =>
      let (returnVal, typeList, whereEveryoneGoes) :=
        findInto (.nest in2 in1) rest (typeList, whereEveryoneGoes)
      (returnVal, typeList.set in2Pos (getTypeName in2), whereEveryoneGoes ++ [in2Pos])
    | none => findInto in1 rest (typeList, whereEveryoneGoes)

/-- `none`: the program exits -/
def findCorrectJoinTuple : List String → List String × List ℕ → Option (TupleType × List String × List ℕ)
  | [], _ => none
  | [in1], (typeList, whereEveryoneGoes) =>
    match findType (getTypeName in1) typeList with
    | some (in1Pos, typeList) =>
      some (.last in1, typeList.set in1Pos (getTypeName in1), whereEveryoneGoes ++ [in1Pos])
    | none => none
  | in1 :: in2 :: rest, (typeList, whereEveryoneGoes) =>
    match findType (getTypeName in1) typeList with
    | some (in1Pos, typeList) =>
      let (returnVal, typeList, whereEveryoneGoes) :=
        findInto (.last in1) (in2 :: rest) (typeList, whereEveryoneGoes)
      some (returnVal, typeList.set in1Pos (getTypeName in1), whereEveryoneGoes ++ [in1Pos])
    | none => findCorrectJoinTuple (in2 :: rest) (typeList, whereEveryoneGoes)

/-- two columns of one type, one of another -/
example : findCorrectJoinTuple ["A", "B", "A"] (["B", "A", "A"].map getTypeName, []) =
    some (.nest "A" (.nest "B" (.last "A")), ["B", "A", "A"].map getTypeName, [2, 0, 1]) := by decide

theorem getTypeName_injective : Function.Injective getTypeName := by
  intro s t h
  have h := congrArg String.toList h
  simp only [getTypeName, String.toList_append] at h
  exact String.toList_inj.mp (by simpa using h)

theorem getTypeName_ne (t : String) : getTypeName t ≠ "" := by
  intro h
  have h := congrArg String.length h
  simp [getTypeName] at h

/-! ## The map -/

section
variable {l l' : List String} {t in1 : TupleType} {s : String} {i : ℕ}

theorem findType_some (h : findType s l = some (i, l')) : ∃ hi : i < l.length, l[i] = s ∧ l' = l.set i "" := by
  obtain ⟨j, hj, hl⟩ := Option.map_eq_some_iff.mp h
  cases hl
  obtain ⟨hlt, heq, -⟩ := List.findIdx?_eq_some_iff_getElem.mp hj
  exact ⟨hlt, beq_iff_eq.mp heq, rfl⟩

theorem findType_none (h : findType s l = none) : s ∉ l := by
  intro hs
  have hnone := List.findIdx?_eq_none_iff.mp (Option.map_eq_none_iff.mp h) s hs
  exact absurd hnone (by simp)

/-- a column that was blanked gets its name again -/
theorem set_back (hi : i < l.length) : (l.set i "").set i l[i] = l := by
  rw [List.set_set, List.set_getElem_self]

/-- slots `ts` come from the columns `ps` -/
structure Found (l : List String) (ts : List String) (ps : List ℕ) : Prop where
  types : List.Forall₂ (fun t p => l[p]? = some (getTypeName t)) ts ps
  nodup : ps.Nodup

/-- the column that was found first comes last -/
theorem Found.snoc {ts : List String} {ps : List ℕ} {t : String} (hi : i < l.length)
    (heq : l[i] = getTypeName t) (h : Found (l.set i "") ts ps) : Found l (ts ++ [t]) (ps ++ [i]) := by
  have hkept : ∀ u p, (l.set i "")[p]? = some (getTypeName u) → i ≠ p ∧ l[p]? = some (getTypeName u) := by
    intro u p hp
    by_cases e : i = p
    · subst e
      rw [List.getElem?_set_self hi] at hp
      exact absurd (Option.some.inj hp).symm (getTypeName_ne u)
    · rw [List.getElem?_set_ne e] at hp
      exact ⟨e, hp⟩
  refine ⟨?_, ?_⟩
  · refine List.rel_append ?_ (.cons ?_ .nil)
    · exact h.types.imp fun u p hp => (hkept u p hp).2
    · rw [List.getElem?_eq_getElem hi, heq]
  · rw [List.nodup_append_comm, List.singleton_append, List.nodup_cons]
    refine ⟨fun hmem => ?_, h.nodup⟩
    obtain ⟨k, hk, hki⟩ := List.getElem_of_mem hmem
    have hlen := h.types.length_eq
    have hrel := h.types.get (by rw [hlen]; exact hk) hk
    rw [List.get_eq_getElem, List.get_eq_getElem, hki] at hrel
    exact (hkept _ i hrel).1 rfl

/-- each type is there at least as often as among the columns that are left -/
def Covers (l cs : List String) : Prop := ∀ s ≠ "", l.count s ≤ (cs.map getTypeName).count s

theorem Covers.found {cs : List String} {c : String} (h : Covers l (c :: cs)) (hi : i < l.length)
    (heq : l[i] = getTypeName c) : Covers (l.set i "") cs := by
  intro s hs
  have hcount := h s hs
  rw [List.map_cons, List.count_cons] at hcount
  rw [List.count_set hi, if_neg (c := ("" == s) = true) (fun he => hs (beq_iff_eq.mp he).symm), heq]
  omega

theorem Covers.not_found {cs : List String} {c : String} (h : Covers l (c :: cs))
    (hc : getTypeName c ∉ l) : Covers l cs := by
  intro s hs
  have hcount := h s hs
  rw [List.map_cons, List.count_cons] at hcount
  by_cases he : getTypeName c = s
  · rw [← he, List.count_eq_zero.mpr hc]
    exact Nat.zero_le _
  · rw [if_neg (fun hb => he (beq_iff_eq.mp hb))] at hcount
    exact hcount

/-- slots around a join tuple -/
def TupleType.within (in1 : TupleType) (ts : List String) : TupleType := ts.foldr .nest in1

theorem slots_within (in1 : TupleType) (ts : List String) : (in1.within ts).slots = ts ++ in1.slots := by
  induction ts with
  | nil => rfl
  | cons t ts ih => exact congrArg (t :: ·) ih

/-- a column that has a name is found, if it is covered -/
def Complete (l : List String) (cs : List String) (ps : List ℕ) : Prop :=
  Covers l cs → ∀ p (_ : p < l.length), l[p] ≠ "" → p ∈ ps

theorem Complete.snoc {cs : List String} {c : String} {ps : List ℕ} (hi : i < l.length)
    (heq : l[i] = getTypeName c) (h : Complete (l.set i "") cs ps) : Complete l (c :: cs) (ps ++ [i]) := by
  intro hcov p hp hne
  by_cases e : i = p
  · exact List.mem_append_right _ (e ▸ List.mem_cons_self)
  · refine List.mem_append_left _ (h (hcov.found hi heq) p (by rw [List.length_set]; exact hp) ?_)
    rw [List.getElem_set_ne e]
    exact hne

theorem complete_nil (l : List String) : Complete l [] [] := by
  intro hcov p hp hne
  have hcount := hcov _ hne
  have hpos := List.count_pos_iff.mpr (List.getElem_mem hp)
  rw [List.map_nil, List.count_nil] at hcount
  omega

theorem findInto_spec (cs : List String) : ∀ (in1 : TupleType) (l : List String) (w : List ℕ), ∃ ts ps,
    findInto in1 cs (l, w) = (in1.within ts, l, w ++ ps) ∧ Found l ts ps ∧ Complete l cs ps := by
  induction cs with
  | nil =>
    intro in1 l w
    refine ⟨[], [], ?_, ⟨.nil, List.nodup_nil⟩, complete_nil l⟩
    rw [findInto, List.append_nil]
    rfl
  | cons in2 rest ih =>
    intro in1 l w
    rw [findInto]
    cases hfind : findType (getTypeName in2) l with
    | none =>
      obtain ⟨ts, ps, hrun, hfound, hcomplete⟩ := ih in1 l w
      exact ⟨ts, ps, hrun, hfound, fun hcov => hcomplete (hcov.not_found (findType_none hfind))⟩
    | some x =>
      obtain ⟨i, l'⟩ := x
      obtain ⟨hi, heq, rfl⟩ := findType_some hfind
      obtain ⟨ts, ps, hrun, hfound, hcomplete⟩ := ih (.nest in2 in1) (l.set i "") w
      refine ⟨ts ++ [in2], ps ++ [i], ?_, hfound.snoc hi heq, hcomplete.snoc hi heq⟩
      dsimp only
      rw [hrun]
      dsimp only
      rw [← heq, set_back hi, List.append_assoc, TupleType.within, TupleType.within, List.foldr_append]
      rfl

theorem not_covers_nil (hl : l ≠ []) (hne : "" ∉ l) : ¬ Covers l [] := by
  intro hcov
  have hpos := List.length_pos_of_ne_nil hl
  exact absurd (complete_nil l hcov 0 hpos fun h => hne (h ▸ List.getElem_mem hpos)) List.not_mem_nil

/-- some column is found -/
theorem findCorrectJoinTuple_spec {l : List String} (hl : l ≠ []) (hne : "" ∉ l) (w : List ℕ) :
    ∀ cs, Covers l cs → ∃ ty ps, findCorrectJoinTuple cs (l, w) = some (ty, l, w ++ ps) ∧
      Found l ty.slots ps ∧ Complete l cs ps := by
  intro cs
  induction cs with
  | nil => exact fun hcov => absurd hcov (not_covers_nil hl hne)
  | cons in1 rest ih =>
    intro hcov
    cases hfind : findType (getTypeName in1) l with
    | none =>
      have hrest := hcov.not_found (findType_none hfind)
      cases rest with
      | nil => exact absurd hrest (not_covers_nil hl hne)
      | cons in2 rest =>
        obtain ⟨ty, ps, hrun, hfound, hcomplete⟩ := ih hrest
        refine ⟨ty, ps, ?_, hfound, fun _ => hcomplete hrest⟩
        rw [findCorrectJoinTuple, hfind]
        exact hrun
    | some x =>
      obtain ⟨i, l'⟩ := x
      obtain ⟨hi, heq, rfl⟩ := findType_some hfind
      cases rest with
      | nil =>
        have hnil : Found (l.set i "") [] [] := ⟨.nil, List.nodup_nil⟩
        refine ⟨.last in1, [i], ?_, hnil.snoc hi heq, (complete_nil _).snoc hi heq⟩
        rw [findCorrectJoinTuple, hfind]
        dsimp only
        rw [← heq, set_back hi]
      | cons in2 rest =>
        obtain ⟨ts, ps, hrun, hfound, hcomplete⟩ := findInto_spec (in2 :: rest) (.last in1) (l.set i "") w
        have hslots : ((TupleType.last in1).within ts).slots = ts ++ [in1] := slots_within _ _
        refine ⟨(TupleType.last in1).within ts, ps ++ [i], ?_, ?_, hcomplete.snoc hi heq⟩
        · rw [findCorrectJoinTuple, hfind]
          dsimp only
          rw [hrun]
          dsimp only
          rw [← heq, set_back hi, List.append_assoc]
        · rw [hslots]
          exact hfound.snoc hi heq

/-- the slots and the columns, by the map -/
structure Layout (typeList : List String) (ty : TupleType) (whereEveryoneGoes : List ℕ) : Prop where
  length : ty.slots.length = typeList.length
  perm : whereEveryoneGoes.Perm (List.range typeList.length)
  types : List.Forall₂ (fun t p => typeList[p]? = some (getTypeName t)) ty.slots whereEveryoneGoes

theorem Found.layout {ty : TupleType} {ps : List ℕ} (h : Found l ty.slots ps)
    (hall : ∀ p < l.length, p ∈ ps) : Layout l ty ps := by
  have hperm : ps.Perm (List.range l.length) := by
    refine (List.perm_ext_iff_of_nodup h.nodup List.nodup_range).mpr fun p => ?_
    rw [List.mem_range]
    refine ⟨fun hp => ?_, hall p⟩
    obtain ⟨k, hk, rfl⟩ := List.getElem_of_mem hp
    have hrel := h.types.get (by rw [h.types.length_eq]; exact hk) hk
    exact (List.getElem?_eq_some_iff.mp hrel).1
  refine ⟨?_, hperm, h.types⟩
  rw [h.types.length_eq, hperm.length_eq, List.length_range]

/-- **The map is a permutation**, and the names are as they were. -/
theorem findCorrectJoinTuple_layout {typeList cs : List String} (hl : typeList ≠ [])
    (hcs : ∀ s, typeList.count s ≤ (cs.map getTypeName).count s) :
    ∃ ty w, findCorrectJoinTuple cs (typeList, []) = some (ty, typeList, w) ∧ Layout typeList ty w := by
  have hne : "" ∉ typeList := by
    intro hmem
    have hpos := List.count_pos_iff.mpr hmem
    have hzero : (cs.map getTypeName).count "" = 0 := by
      refine List.count_eq_zero.mpr fun hin => ?_
      obtain ⟨t, -, ht⟩ := List.mem_map.mp hin
      exact getTypeName_ne t ht
    have hle := hcs ""
    omega
  have hcov : Covers typeList cs := fun s _ => hcs s
  obtain ⟨ty, w, hrun, hfound, hcomplete⟩ := findCorrectJoinTuple_spec hl hne [] cs hcov
  refine ⟨ty, w, hrun, hfound.layout fun p hp => hcomplete hcov p hp fun h => ?_⟩
  exact hne (h ▸ List.getElem_mem hp)

end

/-! ## Tuples and columns -/

/-- what a slot holds: an object, or a handle where the type is abstract -/
inductive MyData (V : Type)
  | object (v : V)
  | handle (h : Option V)

/-- a vector of handles to objects of a type; `none`: null -/
structure Column (V : Type) where
  type : String
  cells : List (Option V)

/-- the columns of a `TupleSet`, which also stand for the pointers to them -/
abbrev Columns (V : Type) := ℕ → Option (Column V)

/-- a join tuple -/
inductive Tuple (V : Type)
  | last (holdMe : String) (myData : MyData V)
  | nest (holdMe : String) (myData : MyData V) (myOtherData : Tuple V)

section
variable {V : Type}

/-- a null handle is reported, and not copied to an object -/
def MyData.copyFrom : MyData V → Option V → MyData V
  | object _, some v => .object v
  | object v, none => .object v
  | handle _, h => .handle h

def MyData.copyTo : MyData V → Option V
  | object v => some v
  | handle h => h

namespace Columns
variable (set : Columns V)

/-- a pointer that is used as one to a vector of handles to `holdMe` -/
def get (input : ℕ) (holdMe : String) : Option (List (Option V)) :=
  match set input with
  | some c => if c.type = holdMe then some c.cells else none
  | none => none

def put (input : ℕ) (holdMe : String) (cells : List (Option V)) : Columns V :=
  Function.update set input (some ⟨holdMe, cells⟩)

end Columns

/-! the functions of a slot -/

def allocate (holdMe : String) (processMe : Columns V) (pos : ℕ) : Columns V := processMe.put pos holdMe []

def copyFrom (holdMe : String) (myData : MyData V) (input whichPos : ℕ) (set : Columns V) :
    Option (MyData V) := do
  let me ← set.get input holdMe
  let x ← me[whichPos]?
  return myData.copyFrom x

def copyTo (holdMe : String) (myData : MyData V) (input whichPos : ℕ) (set : Columns V) :
    Option (Columns V) := do
  let me ← set.get input holdMe
  return set.put input holdMe
    (if me.length ≤ whichPos then me ++ [myData.copyTo] else me.set whichPos myData.copyTo)

/-- `JoinTuple::truncate` -/
def truncateOne (holdMe : String) (input i : ℕ) (set : Columns V) : Option (Columns V) := do
  let valColumn ← set.get input holdMe
  if i ≤ valColumn.length then return set.put input holdMe (valColumn.drop i) else none

/-- `resize (i)` -/
def resize (i : ℕ) (cells : List (Option V)) : List (Option V) :=
  cells.take i ++ List.replicate (i - cells.length) none

/-- `JoinTuple::eraseEnd` -/
def eraseEndOne (holdMe : String) (input i : ℕ) (set : Columns V) : Option (Columns V) := do
  let valColumn ← set.get input holdMe
  return set.put input holdMe (resize i valColumn)

/-! and of all slots, from the outside to the inside -/

def TupleType.eachSlot {σ : Type} (f : String → ℕ → σ → Option σ) : TupleType → ℕ → σ → Option σ
  | last holdMe, k, s => f holdMe k s
  | nest holdMe meTo, k, s => f holdMe k s >>= eachSlot f meTo (k + 1)

/-- with the columns it writes their addresses to `putUsHere` -/
def createCols (offset : ℕ) (positions : List ℕ) :
    TupleType → ℕ → Columns V × (ℕ → ℕ) → Option (Columns V × (ℕ → ℕ)) :=
  TupleType.eachSlot fun holdMe whichPos (processMe, putUsHere) => do
    let p ← positions[whichPos]?
    return (allocate holdMe processMe (offset + p), Function.update putUsHere whichPos (offset + p))

def truncate (i : ℕ) (us : ℕ → ℕ) : TupleType → ℕ → Columns V → Option (Columns V) :=
  TupleType.eachSlot fun holdMe whichVec => truncateOne holdMe (us whichVec) i

def eraseEnd (i : ℕ) (us : ℕ → ℕ) : TupleType → ℕ → Columns V → Option (Columns V) :=
  TupleType.eachSlot fun holdMe whichVec => eraseEndOne holdMe (us whichVec) i

namespace Tuple

def type : Tuple V → TupleType
  | last holdMe _ => .last holdMe
  | nest holdMe _ myOtherData => .nest holdMe myOtherData.type

/-- the slots with what they hold -/
def parts : Tuple V → List (String × MyData V)
  | last holdMe myData => [(holdMe, myData)]
  | nest holdMe myData myOtherData => (holdMe, myData) :: myOtherData.parts

def pack (whichPosInTupleSet : ℕ) (us : ℕ → ℕ) (set : Columns V) : Tuple V → ℕ → Option (Tuple V)
  | last holdMe myData, whichVec => do
    let myData ← copyFrom holdMe myData (us whichVec) whichPosInTupleSet set
    return last holdMe myData
  | nest holdMe myData myOtherData, whichVec => do
    let myData ← copyFrom holdMe myData (us whichVec) whichPosInTupleSet set
    let myOtherData ← pack whichPosInTupleSet us set myOtherData (whichVec + 1)
    return nest holdMe myData myOtherData

def unpack (whichPosInTupleSet : ℕ) (us : ℕ → ℕ) : Tuple V → ℕ → Columns V → Option (Columns V)
  | last holdMe myData, whichVec, set => copyTo holdMe myData (us whichVec) whichPosInTupleSet set
  | nest holdMe myData myOtherData, whichVec, set =>
    copyTo holdMe myData (us whichVec) whichPosInTupleSet set >>=
      unpack whichPosInTupleSet us myOtherData (whichVec + 1)

end Tuple

/-- the columns of the sinks: `useTheseAtts[whereEveryoneGoes[counter]]` -/
def columnsOf (useTheseAtts : ℕ → ℕ) (whereEveryoneGoes : List ℕ) (counter : ℕ) : ℕ :=
  useTheseAtts (whereEveryoneGoes.getD counter 0)

/-! ## One slot after the other -/

/-- steps that write to different places -/
theorem writes {α σ D : Type} (get : σ → ℕ → D) (f : α → ℕ → σ → Option σ) (s : σ) (key : ℕ → ℕ)
    (c : ℕ → D) (xs : List α) (hinj : ∀ i < xs.length, ∀ j < xs.length, key i = key j → i = j)
    (hstep : ∀ j x, xs[j]? = some x → ∀ s', get s' (key j) = get s (key j) →
      ∃ s'', f x j s' = some s'' ∧ get s'' = Function.update (get s') (key j) (c j)) :
    ∃ s', xs.zipIdx.foldlM (fun s x => f x.1 x.2 s) s = some s' ∧
      (∀ j < xs.length, get s' (key j) = c j) ∧
      ∀ x, (∀ j < xs.length, key j ≠ x) → get s' x = get s x := by
  induction xs using List.reverseRecOn with
  | nil => exact ⟨s, rfl, fun j hj => absurd hj (Nat.not_lt_zero j), fun _ _ => rfl⟩
  | append_singleton xs x ih =>
    have hlen : (xs ++ [x]).length = xs.length + 1 := by rw [List.length_append, List.length_singleton]
    rw [hlen] at hinj ⊢
    obtain ⟨s₁, hrun, hset, hrest⟩ := ih (fun i hi j hj => hinj i (by omega) j (by omega))
      fun j y hy => hstep j y (by
        rw [List.getElem?_append_left (List.getElem?_eq_some_iff.mp hy).1]
        exact hy)
    have hlast : get s₁ (key xs.length) = get s (key xs.length) :=
      hrest _ fun j hj he => absurd (hinj j (by omega) xs.length (by omega) he) (by omega)
    obtain ⟨s₂, hs₂, hget⟩ := hstep xs.length x
      (by rw [List.getElem?_append_right (le_refl _), Nat.sub_self]; rfl) s₁ hlast
    refine ⟨s₂, ?_, fun j hj => ?_, fun y hy => ?_⟩
    · rw [List.zipIdx_append, List.foldlM_append, hrun]
      show (f x (0 + xs.length) s₁ >>= fun s => some s) = some s₂
      rw [Nat.zero_add, hs₂]
      rfl
    · rw [hget]
      by_cases e : j = xs.length
      · rw [e, Function.update_self]
      · have hne : key j ≠ key xs.length := fun he => e (hinj j hj xs.length (by omega) he)
        rw [Function.update_of_ne hne]
        exact hset j (by omega)
    · rw [hget, Function.update_of_ne (hy xs.length (by omega)).symm]
      exact hrest y fun j hj => hy j (by omega)

theorem eachSlot_eq {σ : Type} (f : String → ℕ → σ → Option σ) : ∀ (ty : TupleType) (k : ℕ) (s : σ),
    ty.eachSlot f k s = (ty.slots.zipIdx k).foldlM (fun s x => f x.1 x.2 s) s
  | .last holdMe, k, s => by
    show f holdMe k s = f holdMe k s >>= fun s => some s
    exact (bind_pure (f holdMe k s)).symm
  | .nest holdMe meTo, k, s => by
    show f holdMe k s >>= meTo.eachSlot f (k + 1) = f holdMe k s >>= _
    congr 1
    funext s'
    exact eachSlot_eq f meTo (k + 1) s'

theorem unpack_eq (i : ℕ) (us : ℕ → ℕ) : ∀ (t : Tuple V) (k : ℕ) (s : Columns V),
    t.unpack i us k s =
      (t.parts.zipIdx k).foldlM (fun s x => copyTo x.1.1 x.1.2 (us x.2) i s) s
  | .last holdMe myData, k, s => by
    show copyTo holdMe myData (us k) i s = copyTo holdMe myData (us k) i s >>= fun s => some s
    exact (bind_pure (copyTo holdMe myData (us k) i s)).symm
  | .nest holdMe myData myOtherData, k, s => by
    show copyTo holdMe myData (us k) i s >>= myOtherData.unpack i us (k + 1) = _ >>= _
    congr 1
    funext s'
    exact unpack_eq i us myOtherData (k + 1) s'

theorem get_of {set : Columns V} {p : ℕ} {t : String} {cells : List (Option V)}
    (h : set p = some ⟨t, cells⟩) : set.get p t = some cells := by
  rw [Columns.get, h]
  exact if_pos rfl

theorem slots_type : ∀ t : Tuple V, t.type.slots = t.parts.map Prod.fst
  | .last _ _ => rfl
  | .nest holdMe _ myOtherData => congrArg (holdMe :: ·) (slots_type myOtherData)

/-- each slot gets what its column has in the row -/
theorem pack_spec {row : ℕ} {us : ℕ → ℕ} {set : Columns V} {v : ℕ → V} : ∀ (t : Tuple V) (k : ℕ),
    (∀ j h, t.type.slots[j]? = some h →
      ∃ cells, set.get (us (k + j)) h = some cells ∧ cells[row]? = some (some (v (k + j)))) →
    ∃ t', t.pack row us set k = some t' ∧ t'.type = t.type ∧
      ∀ j x, t'.parts[j]? = some x → x.2.copyTo = some (v (k + j)) := by
  have hcopy : ∀ (d : MyData V) (x : V), (d.copyFrom (some x)).copyTo = some x := by
    intro d x
    cases d <;> rfl
  intro t
  induction t with
  | last holdMe d =>
    intro k h
    obtain ⟨cells, hget, hcell⟩ := h 0 holdMe rfl
    refine ⟨.last holdMe (d.copyFrom (some (v k))), ?_, rfl, fun j x hx => ?_⟩
    · rw [Tuple.pack, copyFrom]
      rw [Nat.add_zero] at hget hcell
      rw [hget]
      show (cells[row]? >>= fun x => _) >>= _ = _
      rw [hcell]
      rfl
    · cases j with
      | zero =>
        cases hx
        exact hcopy d (v k)
      | succ j => cases hx
  | nest holdMe d meTo ih =>
    intro k h
    obtain ⟨cells, hget, hcell⟩ := h 0 holdMe rfl
    obtain ⟨t', hpack, htype, hparts⟩ := ih (k + 1) fun j h' hj => by
      have hrest := h (j + 1) h' hj
      rw [← Nat.add_assoc, Nat.add_right_comm] at hrest
      exact hrest
    refine ⟨.nest holdMe (d.copyFrom (some (v k))) t', ?_, ?_, fun j x hx => ?_⟩
    · rw [Tuple.pack, copyFrom]
      rw [Nat.add_zero] at hget hcell
      rw [hget]
      show ((cells[row]? >>= fun x => _) >>= _) = _
      rw [hcell]
      show (meTo.pack row us set (k + 1) >>= _) = _
      rw [hpack]
      rfl
    · exact congrArg (TupleType.nest holdMe) htype
    · cases j with
      | zero =>
        cases hx
        exact hcopy d (v k)
      | succ j =>
        rw [← Nat.add_assoc, Nat.add_right_comm]
        exact hparts j x hx

/-! ## By the map -/

section
variable {typeList : List String} {ty : TupleType} {w : List ℕ} {types : ℕ → String} {i j : ℕ}

theorem Layout.length_map (h : Layout typeList ty w) : ty.slots.length = w.length := h.types.length_eq

/-- the column of a slot -/
theorem Layout.slot (h : Layout typeList ty w)
    (htypes : ∀ c < typeList.length, typeList[c]? = some (getTypeName (types c))) {t : String}
    (ht : ty.slots[j]? = some t) : ∃ c < typeList.length, w[j]? = some c ∧ t = types c := by
  obtain ⟨hj, rfl⟩ := List.getElem?_eq_some_iff.mp ht
  have hjw : j < w.length := h.length_map ▸ hj
  have hrel := h.types.get hj hjw
  rw [List.get_eq_getElem, List.get_eq_getElem] at hrel
  have hc := (List.getElem?_eq_some_iff.mp hrel).1
  rw [htypes _ hc] at hrel
  exact ⟨w[j], hc, List.getElem?_eq_getElem hjw, (getTypeName_injective (Option.some.inj hrel)).symm⟩

/-- the slot of a column -/
theorem Layout.column (h : Layout typeList ty w) {c : ℕ} (hc : c < typeList.length) :
    ∃ j < ty.slots.length, w[j]? = some c := by
  obtain ⟨j, hj, heq⟩ := List.getElem_of_mem (h.perm.mem_iff.mpr (List.mem_range.mpr hc))
  exact ⟨j, h.length_map ▸ hj, List.getElem?_eq_some_iff.mpr ⟨hj, heq⟩⟩

theorem getD_of {c : ℕ} (h : w[j]? = some c) : w.getD j 0 = c := by
  rw [List.getD_eq_getElem?_getD, h]
  rfl

theorem Layout.inj (h : Layout typeList ty w) (hi : i < ty.slots.length) (hj : j < ty.slots.length)
    (he : w.getD i 0 = w.getD j 0) : i = j := by
  have hiw : i < w.length := h.length_map ▸ hi
  have hjw : j < w.length := h.length_map ▸ hj
  rw [getD_of (List.getElem?_eq_getElem hiw), getD_of (List.getElem?_eq_getElem hjw)] at he
  exact (h.perm.nodup_iff.mpr List.nodup_range).getElem_inj_iff.mp he

theorem Layout.lt (h : Layout typeList ty w) (hj : j < ty.slots.length) :
    w.getD j 0 < typeList.length := by
  have hjw : j < w.length := h.length_map ▸ hj
  rw [getD_of (List.getElem?_eq_getElem hjw)]
  exact List.mem_range.mp (h.perm.mem_iff.mp (List.getElem_mem hjw))

/-- a column for each slot, and its address -/
theorem createCols_spec (h : Layout typeList ty w)
    (htypes : ∀ c < typeList.length, typeList[c]? = some (getTypeName (types c))) (output : Columns V)
    (putUsHere : ℕ → ℕ) (offset : ℕ) : ∃ created us,
      createCols offset w ty 0 (output, putUsHere) = some (created, us) ∧
      (∀ j < ty.slots.length, us j = offset + w.getD j 0) ∧
      ∀ c < typeList.length, created (offset + c) = some ⟨types c, []⟩ := by
  obtain ⟨⟨created, us⟩, hrun, hset, -⟩ := writes (D := Option (Column V)) Prod.fst
    (fun holdMe whichPos (processMe, putUsHere) => do
      let p ← w[whichPos]?
      return (allocate holdMe processMe (offset + p), Function.update putUsHere whichPos (offset + p)))
    (output, putUsHere) (fun j => offset + w.getD j 0) (fun j => some ⟨types (w.getD j 0), []⟩) ty.slots
    (fun i hi j hj he => h.inj hi hj (Nat.add_left_cancel he))
    (fun j t ht s' _ => by
      obtain ⟨c, -, hw, rfl⟩ := h.slot htypes ht
      refine ⟨(allocate (types c) s'.1 (offset + c), Function.update s'.2 j (offset + c)), ?_, ?_⟩
      · dsimp only
        rw [hw]
        rfl
      · rw [getD_of hw]
        rfl)
  obtain ⟨⟨created', us'⟩, hrun', hus, -⟩ := writes (D := ℕ) Prod.snd
    (fun holdMe whichPos (processMe, putUsHere) => do
      let p ← w[whichPos]?
      return (allocate holdMe processMe (offset + p), Function.update putUsHere whichPos (offset + p)))
    (output, putUsHere) (fun j => j) (fun j => offset + w.getD j 0) ty.slots (fun i _ j _ he => he)
    (fun j t ht s' _ => by
      obtain ⟨c, -, hw, rfl⟩ := h.slot htypes ht
      refine ⟨(allocate (types c) s'.1 (offset + c), Function.update s'.2 j (offset + c)), ?_, ?_⟩
      · dsimp only
        rw [hw]
        rfl
      · rw [getD_of hw])
  rw [hrun] at hrun'
  cases hrun'
  refine ⟨created, us, ?_, hus, fun c hc => ?_⟩
  · unfold createCols
    rw [eachSlot_eq]
    exact hrun
  · obtain ⟨j, hj, hw⟩ := h.column hc
    have hcol := hset j hj
    rw [getD_of hw] at hcol
    exact hcol

/-- a tuple comes behind the rows that are there -/
theorem unpack_spec (h : Layout typeList ty w)
    (htypes : ∀ c < typeList.length, typeList[c]? = some (getTypeName (types c))) {x : ℕ → V} {t : Tuple V}
    (ht : t.type = ty) (hparts : ∀ j y, t.parts[j]? = some y → y.2.copyTo = some (x (w.getD j 0)))
    {us : ℕ → ℕ} {offset pos : ℕ} (hus : ∀ j < ty.slots.length, us j = offset + w.getD j 0)
    {set : Columns V} {old : ℕ → List (Option V)}
    (hset : ∀ c < typeList.length, set (offset + c) = some ⟨types c, old c⟩ ∧ (old c).length = pos) :
    ∃ set', t.unpack pos us 0 set = some set' ∧
      ∀ c < typeList.length, set' (offset + c) = some ⟨types c, old c ++ [some (x c)]⟩ := by
  have hslots : ty.slots = t.parts.map Prod.fst := ht ▸ slots_type t
  have hlen : ty.slots.length = t.parts.length := by rw [hslots, List.length_map]
  obtain ⟨set', hrun, hnew, -⟩ := writes (D := Option (Column V)) id
    (fun (y : String × MyData V) k s => copyTo y.1 y.2 (us k) pos s) set
    us (fun j => some ⟨types (w.getD j 0), old (w.getD j 0) ++ [some (x (w.getD j 0))]⟩) t.parts
    (fun i hi j hj he => by
      rw [hus i (hlen ▸ hi), hus j (hlen ▸ hj)] at he
      exact h.inj (hlen ▸ hi) (hlen ▸ hj) (Nat.add_left_cancel he))
    (fun j y hy s' hs' => by
      have hj : j < ty.slots.length := hlen ▸ (List.getElem?_eq_some_iff.mp hy).1
      have hslot : ty.slots[j]? = some y.1 := by
        rw [hslots, List.getElem?_map, hy]
        rfl
      obtain ⟨c, hc, hw, hyc⟩ := h.slot htypes hslot
      obtain ⟨hcol, hpos⟩ := hset c hc
      have hj' := hus j hj
      rw [getD_of hw] at hj' ⊢
      have hget : s' (us j) = some ⟨y.1, old c⟩ := by
        rw [show s' (us j) = set (us j) from hs', hj', hyc]
        exact hcol
      have hdata := hparts j y hy
      rw [getD_of hw] at hdata
      refine ⟨Columns.put s' (us j) y.1 (old c ++ [some (x c)]), ?_, ?_⟩
      · unfold copyTo
        rw [get_of hget, hdata]
        show some (Columns.put s' (us j) y.1 (if (old c).length ≤ pos then _ else _)) = _
        rw [if_pos hpos.le]
      · rw [← hyc]
        rfl)
  refine ⟨set', (unpack_eq pos us t 0 set).trans hrun, fun c hc => ?_⟩
  obtain ⟨j, hj, hw⟩ := h.column hc
  have hcol := hnew j (hlen ▸ hj)
  rw [hus j hj, getD_of hw] at hcol
  exact hcol

/-- each column is written once, by a function of its contents -/
theorem eachSlot_spec (h : Layout typeList ty w)
    (htypes : ∀ c < typeList.length, typeList[c]? = some (getTypeName (types c)))
    {f : String → ℕ → Columns V → Option (Columns V)} {cut : List (Option V) → List (Option V)}
    {atts : ℕ → ℕ} (hatts : ∀ c < typeList.length, ∀ d < typeList.length, atts c = atts d → c = d)
    {set : Columns V} {old : ℕ → List (Option V)}
    (hset : ∀ c < typeList.length, set (atts c) = some ⟨types c, old c⟩)
    (hf : ∀ c < typeList.length, ∀ s' : Columns V, s' (atts c) = some ⟨types c, old c⟩ →
      f (types c) (atts c) s' = some (s'.put (atts c) (types c) (cut (old c)))) :
    ∃ set', ty.eachSlot (fun holdMe k => f holdMe (columnsOf atts w k)) 0 set = some set' ∧
      ∀ c < typeList.length, set' (atts c) = some ⟨types c, cut (old c)⟩ := by
  obtain ⟨set', hrun, hnew, -⟩ := writes (D := Option (Column V)) id
    (fun holdMe k => f holdMe (columnsOf atts w k)) set (columnsOf atts w)
    (fun j => some ⟨types (w.getD j 0), cut (old (w.getD j 0))⟩) ty.slots
    (fun i hi j hj he => h.inj hi hj (hatts _ (h.lt hi) _ (h.lt hj) he))
    (fun j t ht s' hs' => by
      obtain ⟨c, hc, hw, rfl⟩ := h.slot htypes ht
      have hkey : columnsOf atts w j = atts c := congrArg atts (getD_of hw)
      rw [hkey, getD_of hw]
      rw [hkey] at hs'
      exact ⟨_, hf c hc s' (hs'.trans (hset c hc)), rfl⟩)
  refine ⟨set', (eachSlot_eq _ ty 0 set).trans hrun, fun c hc => ?_⟩
  obtain ⟨j, hj, hw⟩ := h.column hc
  have hcol := hnew j hj
  rw [show columnsOf atts w j = atts c from congrArg atts (getD_of hw), getD_of hw] at hcol
  exact hcol

end

/-- a row that is packed into a tuple and unpacked into new columns is there again -/
def RoundTrips (typeList : List String) (ty : TupleType) (w : List ℕ) (V : Type) : Prop :=
  ∀ (types : ℕ → String) (input : Columns V) (atts : ℕ → ℕ) (row : ℕ) (x : ℕ → V) (arg : Tuple V),
    arg.type = ty →
    (∀ c < typeList.length, typeList[c]? = some (getTypeName (types c)) ∧
      ∃ cells, input (atts c) = some ⟨types c, cells⟩ ∧ cells[row]? = some (some (x c))) →
    ∃ packed, arg.pack row (columnsOf atts w) input 0 = some packed ∧ packed.type = ty ∧
      ∀ (output : Columns V) (putUsHere : ℕ → ℕ) (offset : ℕ), ∃ created us,
        createCols offset w ty 0 (output, putUsHere) = some (created, us) ∧
        (∀ c < typeList.length, created (offset + c) = some ⟨types c, []⟩) ∧
        ∀ (set : Columns V) (old : ℕ → List (Option V)) (pos : ℕ),
          (∀ c < typeList.length, set (offset + c) = some ⟨types c, old c⟩ ∧ (old c).length = pos) →
          ∃ set', packed.unpack pos us 0 set = some set' ∧
            ∀ c < typeList.length, set' (offset + c) = some ⟨types c, old c ++ [some (x c)]⟩

/-- `truncate` and `eraseEnd` cut each column off once -/
def CutsOff (typeList : List String) (ty : TupleType) (w : List ℕ) (V : Type) : Prop :=
  ∀ (types : ℕ → String) (atts : ℕ → ℕ) (set : Columns V) (old : ℕ → List (Option V)) (i : ℕ),
    (∀ c < typeList.length, ∀ d < typeList.length, atts c = atts d → c = d) →
    (∀ c < typeList.length, typeList[c]? = some (getTypeName (types c)) ∧
      set (atts c) = some ⟨types c, old c⟩) →
    ((∀ c < typeList.length, i ≤ (old c).length) → ∃ set',
      truncate i (columnsOf atts w) ty 0 set = some set' ∧
      ∀ c < typeList.length, set' (atts c) = some ⟨types c, (old c).drop i⟩) ∧
    ∃ set', eraseEnd i (columnsOf atts w) ty 0 set = some set' ∧
      ∀ c < typeList.length, set' (atts c) = some ⟨types c, resize i (old c)⟩

theorem Layout.roundTrips {typeList : List String} {ty : TupleType} {w : List ℕ} (h : Layout typeList ty w) :
    RoundTrips typeList ty w V := by
  intro types input atts row x arg harg hrow
  have htypes := fun c hc => (hrow c hc).1
  have hslots : ∀ j t, arg.type.slots[j]? = some t →
      ∃ cells, input.get (columnsOf atts w (0 + j)) t = some cells ∧
        cells[row]? = some (some (x (w.getD (0 + j) 0))) := by
    intro j t ht
    rw [harg] at ht
    obtain ⟨c, hc, hw, rfl⟩ := h.slot htypes ht
    obtain ⟨-, cells, hcol, hcell⟩ := hrow c hc
    rw [Nat.zero_add, getD_of hw]
    refine ⟨cells, get_of ?_, hcell⟩
    rw [show columnsOf atts w j = atts c from congrArg atts (getD_of hw)]
    exact hcol
  -- the value at a slot is that of the slot's column
  obtain ⟨packed, hpack, htype, hparts⟩ :=
    pack_spec (v := fun j => x (w.getD j 0)) arg 0 hslots
  refine ⟨packed, hpack, htype.trans harg, fun output putUsHere offset => ?_⟩
  obtain ⟨created, us, hcreate, hus, hcols⟩ := createCols_spec h htypes output putUsHere offset
  refine ⟨created, us, hcreate, hcols, fun set old pos hset => ?_⟩
  refine unpack_spec h htypes (htype.trans harg) (fun j y hy => ?_) hus hset
  have hdata := hparts j y hy
  rw [Nat.zero_add] at hdata
  exact hdata

theorem Layout.cutsOff {typeList : List String} {ty : TupleType} {w : List ℕ} (h : Layout typeList ty w) :
    CutsOff typeList ty w V := by
  intro types atts set old i hatts hset
  have htypes := fun c hc => (hset c hc).1
  have hcols := fun c hc => (hset c hc).2
  refine ⟨fun hlen => ?_, ?_⟩
  · have hone : ∀ c < typeList.length, ∀ s' : Columns V, s' (atts c) = some ⟨types c, old c⟩ →
        truncateOne (types c) (atts c) i s' = some (s'.put (atts c) (types c) (List.drop i (old c))) := by
      intro c hc s' hs'
      rw [truncateOne, get_of hs']
      exact if_pos (hlen c hc)
    exact eachSlot_spec h htypes (f := fun holdMe input => truncateOne holdMe input i) hatts hcols hone
  · have hone : ∀ c < typeList.length, ∀ s' : Columns V, s' (atts c) = some ⟨types c, old c⟩ →
        eraseEndOne (types c) (atts c) i s' = some (s'.put (atts c) (types c) (resize i (old c))) := by
      intro c _ s' hs'
      rw [eraseEndOne, get_of hs']
      rfl
    exact eachSlot_spec h htypes (f := fun holdMe input => eraseEndOne holdMe input i) hatts hcols hone

end
end Netsdb.JoinTuples
