import Netsdb.Lib.BinHeap
import Netsdb.Lib.TopK
import Mathlib.Order.WithBot

/-!
# `TopKQueue` (`TopKQueue.cc`)

A queue keeps the `k` best pairs of a score and a value.  The first pair is in `tempScore` and
`tempValue`; from the second on the pairs are in two vectors, `allScores` being a heap.

* `Columns`               the two vectors, `swap`, and the loops of `insert`;
* `insert`, `add`, `size` the operations; `none`: a null handle or memory outside of a vector is used;
* `Made`                  the queues that insertions and merges make, and the pairs that went in;
* `holds_iff`             such a queue holds the best of these pairs, and `size` returns their number
                          just if at least two pairs were inserted into it.
-/

set_option linter.unusedSectionVars false

namespace Netsdb
variable {S V : Type*}

/-- `allScores`, `allValues`, and the scratch members of `swap` -/
structure Columns (S V : Type*) where
  tempScore : S
  tempValue : V
  scores : List S
  values : List V

structure TopKQueue (S V : Type*) where
  k : Nat
  empty : Bool
  tempScore : S
  tempValue : V
  /-- `none`: a null handle -/
  allScores : Option (List S)
  allValues : Option (List V)

namespace Columns

def swap (c : Columns S V) (i j : Nat) : Option (Columns S V) :=
  c.scores[i]?.bind fun tempScore =>
  c.values[i]?.bind fun tempValue =>
  c.scores[j]?.bind fun score =>
  c.values[j]?.map fun value =>
    ⟨tempScore, tempValue, (c.scores.set i score).set j tempScore,
      (c.values.set i value).set j tempValue⟩

def push_back (c : Columns S V) (score : S) (value : V) : Columns S V :=
  { c with scores := c.scores ++ [score], values := c.values ++ [value] }

/-- the last entry is put at the first position -/
def dropRoot (c : Columns S V) : Option (Columns S V) :=
  c.scores[c.scores.length - 1]?.bind fun score =>
  c.values[c.scores.length - 1]?.map fun value =>
    { c with
      scores := (c.scores.set 0 score).dropLast
      values := (c.values.set 0 value).dropLast }

variable [LinearOrder S]

/-- the first loop of `insert` -/
def siftUp : Nat → Columns S V → Nat → Option (Columns S V)
  | 0, _, _ => none
  | fuel + 1, c, current =>
    if current = 0 then some c
    else
      c.scores[current]?.bind fun score =>
      c.scores[(current - 1) / 2]?.bind fun above =>
        if score < above then
          (c.swap current ((current - 1) / 2)).bind fun c => siftUp fuel c ((current - 1) / 2)
        else some c

/-- the smaller child; `none`: there is none -/
def smallPos (c : Columns S V) (current limit : Nat) : Option (Option Nat) :=
  if current * 2 + 2 < limit then
    c.scores[current * 2 + 1]?.bind fun left =>
    c.scores[current * 2 + 2]?.map fun right =>
      some (if left < right then current * 2 + 1 else current * 2 + 2)
  else if current * 2 + 1 < limit then some (some (current * 2 + 1))
  else some none

/-- the second loop of `insert` -/
def siftDown : Nat → Columns S V → Nat → Nat → Option (Columns S V)
  | 0, _, _, _ => none
  | fuel + 1, c, limit, current =>
    (c.smallPos current limit).bind fun
      | none => some c
      | some pos =>
        c.scores[pos]?.bind fun small =>
        c.scores[current]?.bind fun score =>
          if small < score then (c.swap pos current).bind fun c => siftDown fuel c limit pos
          else some c

/-- `TopKQueue::insert`, when the vectors are there -/
def insert (c : Columns S V) (k : Nat) (score : S) (value : V) : Option (Columns S V) :=
  c.scores[0]?.bind fun root =>
    -- don't do anything if the new one is not good enough
    if score < root ∧ k ≤ c.scores.length then some c
    else
      ((c.push_back score value).siftUp (c.scores.length + 1) c.scores.length).bind fun c =>
        if c.scores.length ≤ k then some c
        else c.dropRoot.bind fun c => c.siftDown (c.scores.length + 1) c.scores.length 0

end Columns

namespace TopKQueue
variable [LinearOrder S]

def create [Inhabited S] [Inhabited V] (k : Nat) : TopKQueue S V := ⟨k, true, default, default, none, none⟩

/-- the constructor with a first pair -/
def single (k : Nat) (initScore : S) (initValue : V) : TopKQueue S V :=
  ⟨k, false, initScore, initValue, none, none⟩

/-- the columns, made when the second pair comes -/
def columns (q : TopKQueue S V) : Option (Columns S V) :=
  match q.allScores with
  | none => some ⟨q.tempScore, q.tempValue, [q.tempScore], [q.tempValue]⟩
  | some scores => q.allValues.map fun values => ⟨q.tempScore, q.tempValue, scores, values⟩

def setColumns (q : TopKQueue S V) (c : Columns S V) : TopKQueue S V :=
  { q with
    tempScore := c.tempScore
    tempValue := c.tempValue
    allScores := some c.scores
    allValues := some c.values }

def insert (q : TopKQueue S V) (score : S) (value : V) : Option (TopKQueue S V) :=
  if q.empty then some { q with tempScore := score, tempValue := value, empty := false }
  else q.columns.bind fun c => (c.insert q.k score value).map fun c => q.setColumns c

/-- the loop of `operator+` -/
def insertAll (q : TopKQueue S V) : List S → List V → Option (TopKQueue S V)
  | [], _ => some q
  | score :: scores, value :: values =>
    (q.insert score value).bind fun q => q.insertAll scores values
  | _ :: _, [] => none

/-- `operator+`, with another queue -/
def add (q addMeIn : TopKQueue S V) : Option (TopKQueue S V) :=
  if addMeIn.empty then some q
  else
    match addMeIn.allScores with
    | none => q.insert addMeIn.tempScore addMeIn.tempValue
    | some scores => addMeIn.allValues.bind fun values => q.insertAll scores values

/-- `allValues->size ()` -/
def size (q : TopKQueue S V) : Option Nat := q.allValues.map List.length

/-- the pairs that a queue holds -/
def pairs (q : TopKQueue S V) : Multiset (S × V) :=
  if q.empty then 0
  else
    match q.allScores with
    | none => {(q.tempScore, q.tempValue)}
    | some scores => ↑(scores.zip (q.allValues.getD []))

/-- `Made k q m n`: insertions and merges made `q`; `m` is what was inserted into it or merged into
it, and `n` counts the calls of `insert` for it, those of `operator+` included -/
inductive Made [Inhabited S] [Inhabited V] (k : Nat) :
    TopKQueue S V → Multiset (S × V) → Nat → Prop
  | create : Made k (create k) 0 0
  | single (score : S) (value : V) : Made k (single k score value) {(score, value)} 1
  | insert {q q' m n} (score : S) (value : V) : Made k q m n → q.insert score value = some q' →
      Made k q' ((score, value) ::ₘ m) (n + 1)
  | add {q q' q₂ m m₂ n n₂} : Made k q m n → Made k q₂ m₂ n₂ → q.add q₂ = some q' →
      Made k q' (m + m₂) (n + q₂.pairs.card)

/-- what a queue is for -/
structure Holds (k : Nat) (q : TopKQueue S V) (m : Multiset (S × V)) : Prop where
  best : TopK.Best Prod.fst k q.pairs m
  aligned : q.allScores.map List.length = q.allValues.map List.length
  /-- `allScores` is a min-heap -/
  heap : ∀ scores, q.allScores = some scores → ∀ i s t, 0 < i → scores[(i - 1) / 2]? = some s →
    scores[i]? = some t → s ≤ t
  size : q.size = some q.pairs.card

end TopKQueue

/-! ## The loops -/

namespace Columns

/-- the score at a position -/
def key (c : Columns S V) (i : Nat) : WithTop S := (c.scores[i]?).elim ⊤ fun s => (s : WithTop S)

def pairs (c : Columns S V) : Multiset (S × V) := ↑(c.scores.zip c.values)

/-- `c'` has the pairs of `c` in another order -/
structure Same (c c' : Columns S V) : Prop where
  scores : c'.scores.length = c.scores.length
  values : c'.values.length = c.values.length
  pairs : c'.pairs = c.pairs

variable {c c' : Columns S V} {i j n fuel current : Nat} {score : S} {value : V}

theorem Same.refl : Same c c := ⟨rfl, rfl, rfl⟩

theorem Same.trans {c'' : Columns S V} (h : Same c c') (h' : Same c' c'') : Same c c'' :=
  ⟨h'.scores.trans h.scores, h'.values.trans h.values, h'.pairs.trans h.pairs⟩

theorem key_eq (h : c.scores[i]? = some score) : c.key i = (score : WithTop S) := by
  unfold key
  rw [h]
  rfl

theorem key_eq_top (h : c.scores.length ≤ i) : c.key i = ⊤ := by
  unfold key
  rw [List.getElem?_eq_none h]
  rfl

theorem zip_set (l : List S) : ∀ (m : List V) (i : Nat) (a : S) (b : V),
    (l.set i a).zip (m.set i b) = (l.zip m).set i (a, b) := by
  induction l with
  | nil => exact fun m i a b => rfl
  | cons x l ih =>
    intro m i a b
    cases m with
    | nil => cases i <;> rfl
    | cons y m =>
      cases i with
      | zero => rfl
      | succ i =>
        show (x, y) :: (l.set i a).zip (m.set i b) = (x, y) :: (l.zip m).set i (a, b)
        rw [ih]

theorem swap_spec (ha : c.scores.length = c.values.length) (hi : i < c.scores.length)
    (hj : j < c.scores.length) :
    ∃ c', c.swap i j = some c' ∧ Same c c' ∧ c'.key = BinHeap.swap c.key i j := by
  have hi' : i < c.values.length := ha ▸ hi
  have hj' : j < c.values.length := ha ▸ hj
  refine ⟨⟨c.scores[i], c.values[i], (c.scores.set i c.scores[j]).set j c.scores[i],
    (c.values.set i c.values[j]).set j c.values[i]⟩, ?_, ⟨?_, ?_, ?_⟩, ?_⟩
  · unfold swap
    rw [List.getElem?_eq_getElem hi, List.getElem?_eq_getElem hj, List.getElem?_eq_getElem hi',
      List.getElem?_eq_getElem hj']
    rfl
  · show ((c.scores.set i c.scores[j]).set j c.scores[i]).length = c.scores.length
    rw [List.length_set, List.length_set]
  · show ((c.values.set i c.values[j]).set j c.values[i]).length = c.values.length
    rw [List.length_set, List.length_set]
  · apply Multiset.coe_eq_coe.mpr
    have hiz : i < (c.scores.zip c.values).length := by
      rw [List.length_zip]
      omega
    have hjz : j < (c.scores.zip c.values).length := by
      rw [List.length_zip]
      omega
    have hperm := List.set_set_perm hiz hjz
    rw [List.getElem_zip, List.getElem_zip] at hperm
    rw [zip_set, zip_set]
    exact hperm
  · funext m
    show (((c.scores.set i c.scores[j]).set j c.scores[i])[m]?).elim ⊤ _ = _
    have hki : c.key i = (c.scores[i] : WithTop S) := key_eq (List.getElem?_eq_getElem hi)
    have hkj : c.key j = (c.scores[j] : WithTop S) := key_eq (List.getElem?_eq_getElem hj)
    by_cases hmj : m = j
    · subst hmj
      rw [BinHeap.swap_right, hki, List.getElem?_set_self (by rw [List.length_set]; exact hj)]
      rfl
    · rw [List.getElem?_set_ne fun e => hmj e.symm]
      by_cases hmi : m = i
      · subst hmi
        rw [BinHeap.swap_left, hkj, List.getElem?_set_self hi]
        rfl
      · rw [BinHeap.swap_of_ne hmi hmj, List.getElem?_set_ne fun e => hmi e.symm]
        rfl

variable [LinearOrder S]

theorem siftUp_spec (fuel : Nat) : ∀ {c : Columns S V} {current : Nat},
    c.scores.length = c.values.length → current < c.scores.length → current < fuel →
    BinHeap.UpFrom c.key current →
      ∃ c', c.siftUp fuel current = some c' ∧ Same c c' ∧ BinHeap.Ordered c'.key := by
  induction fuel with
  | zero => exact fun _ _ h => absurd h (Nat.not_lt_zero _)
  | succ fuel ih =>
    intro c current ha hlt hfuel hup
    unfold siftUp
    by_cases h0 : current = 0
    · rw [if_pos h0]
      exact ⟨c, rfl, .refl, hup.ordered fun hpos => absurd h0 hpos.ne'⟩
    · have hpos : 0 < current := Nat.pos_of_ne_zero h0
      have hpar : (current - 1) / 2 < current := BinHeap.parent_lt hpos
      have hs := List.getElem?_eq_getElem hlt
      have hp := List.getElem?_eq_getElem (hpar.trans hlt)
      rw [if_neg h0, hs, hp]
      show ∃ c', (if c.scores[current] < c.scores[(current - 1) / 2] then
        (c.swap current ((current - 1) / 2)).bind fun c => siftUp fuel c ((current - 1) / 2)
        else some c) = some c' ∧ _
      by_cases hless : c.scores[current] < c.scores[(current - 1) / 2]
      · rw [if_pos hless]
        obtain ⟨c₁, hc₁, hsame, hkey⟩ := swap_spec ha hlt (hpar.trans hlt)
        have hless' : c.key current < c.key (BinHeap.parent current) := by
          show c.key current < c.key ((current - 1) / 2)
          rw [key_eq hs, key_eq hp]
          exact WithTop.coe_lt_coe.mpr hless
        have hup₁ : BinHeap.UpFrom c₁.key ((current - 1) / 2) := by
          rw [hkey]
          exact hup.swap hpos hless'
        obtain ⟨c₂, hc₂, hsame₂, hord⟩ := ih (by rw [hsame.scores, hsame.values]; exact ha)
          (by rw [hsame.scores]; exact hpar.trans hlt) (by omega) hup₁
        rw [hc₁]
        exact ⟨c₂, hc₂, hsame.trans hsame₂, hord⟩
      · rw [if_neg hless]
        refine ⟨c, rfl, .refl, hup.ordered fun _ => ?_⟩
        show c.key ((current - 1) / 2) ≤ c.key current
        rw [key_eq hs, key_eq hp]
        exact WithTop.coe_le_coe.mpr (not_lt.mp hless)

/-- the smaller child has the least key of the children -/
theorem smallPos_spec (c : Columns S V) (current : Nat) :
    (c.smallPos current c.scores.length = some none ∧
        ∀ i, 0 < i → BinHeap.parent i = current → c.key i = ⊤) ∨
      ∃ pos, c.smallPos current c.scores.length = some (some pos) ∧ pos < c.scores.length ∧
        current < pos ∧ BinHeap.parent pos = current ∧
        ∀ i, 0 < i → BinHeap.parent i = current → c.key pos ≤ c.key i := by
  unfold smallPos
  by_cases h2 : current * 2 + 2 < c.scores.length
  · have hl := List.getElem?_eq_getElem (show current * 2 + 1 < c.scores.length by omega)
    have hr := List.getElem?_eq_getElem h2
    rw [if_pos h2, hl, hr]
    refine .inr ?_
    show ∃ pos, some (some (if c.scores[current * 2 + 1] < c.scores[current * 2 + 2] then
      current * 2 + 1 else current * 2 + 2)) = some (some pos) ∧ _
    by_cases hless : c.scores[current * 2 + 1] < c.scores[current * 2 + 2]
    · rw [if_pos hless]
      refine ⟨_, rfl, by omega, by omega, (BinHeap.parent_eq_iff (by omega)).mpr (.inl rfl), ?_⟩
      intro i hi hpar
      obtain rfl | rfl := (BinHeap.parent_eq_iff hi).mp hpar
      · exact le_refl _
      · rw [key_eq hl, key_eq hr]
        exact WithTop.coe_le_coe.mpr hless.le
    · rw [if_neg hless]
      refine ⟨_, rfl, by omega, by omega, (BinHeap.parent_eq_iff (by omega)).mpr (.inr rfl), ?_⟩
      intro i hi hpar
      obtain rfl | rfl := (BinHeap.parent_eq_iff hi).mp hpar
      · rw [key_eq hl, key_eq hr]
        exact WithTop.coe_le_coe.mpr (not_lt.mp hless)
      · exact le_refl _
  · rw [if_neg h2]
    by_cases h1 : current * 2 + 1 < c.scores.length
    · rw [if_pos h1]
      refine .inr ⟨_, rfl, h1, by omega, (BinHeap.parent_eq_iff (by omega)).mpr (.inl rfl), ?_⟩
      intro i hi hpar
      obtain rfl | rfl := (BinHeap.parent_eq_iff hi).mp hpar
      · exact le_refl _
      · rw [key_eq_top (i := current * 2 + 2) (by omega)]
        exact le_top
    · rw [if_neg h1]
      refine .inl ⟨rfl, fun i hi hpar => key_eq_top ?_⟩
      have := (BinHeap.parent_eq_iff hi).mp hpar
      omega

theorem siftDown_spec (fuel : Nat) : ∀ {c : Columns S V} {current : Nat},
    c.scores.length = c.values.length → current < c.scores.length →
    c.scores.length ≤ fuel + current → BinHeap.DownFrom c.key current →
      ∃ c', c.siftDown fuel c.scores.length current = some c' ∧ Same c c' ∧
        BinHeap.Ordered c'.key := by
  induction fuel with
  | zero =>
    intro c current _ hlt hfuel
    omega
  | succ fuel ih =>
    intro c current ha hlt hfuel hdown
    unfold siftDown
    obtain ⟨hnone, htop⟩ | ⟨pos, hpos, hposlt, hgt, hpar, hmin⟩ :=
      smallPos_spec c current
    · rw [hnone]
      refine ⟨c, rfl, .refl, hdown.ordered fun i hi hp => ?_⟩
      rw [htop i hi hp]
      exact le_top
    · have hs := List.getElem?_eq_getElem hposlt
      have hc := List.getElem?_eq_getElem hlt
      rw [hpos]
      rw [Option.bind_some]
      dsimp only
      rw [hs, hc, Option.bind_some, Option.bind_some]
      by_cases hless : c.scores[pos] < c.scores[current]
      · rw [if_pos hless]
        obtain ⟨c₁, hc₁, hsame, hkey⟩ := swap_spec ha hposlt hlt
        have hless' : c.key pos < c.key current := by
          rw [key_eq hs, key_eq hc]
          exact WithTop.coe_lt_coe.mpr hless
        have hdown₁ : BinHeap.DownFrom c₁.key pos := by
          rw [hkey]
          exact hdown.swap (by omega) hpar hmin hless'
        obtain ⟨c₂, hc₂, hsame₂, hord⟩ := ih (by rw [hsame.scores, hsame.values]; exact ha)
          (by rw [hsame.scores]; exact hposlt) (by rw [hsame.scores]; omega) hdown₁
        rw [hsame.scores] at hc₂
        rw [hc₁]
        exact ⟨c₂, hc₂, hsame.trans hsame₂, hord⟩
      · rw [if_neg hless]
        refine ⟨c, rfl, .refl, hdown.ordered fun i hi hp => ?_⟩
        refine le_trans ?_ (hmin i hi hp)
        rw [key_eq hs, key_eq hc]
        exact WithTop.coe_le_coe.mpr (not_lt.mp hless)

/-! ## `insert` -/

theorem zip_dropLast (l : List S) : ∀ m : List V, l.length = m.length →
    l.dropLast.zip m.dropLast = (l.zip m).dropLast := by
  induction l with
  | nil => exact fun m h => rfl
  | cons x l ih =>
    intro m h
    cases m with
    | nil => cases h
    | cons y m =>
      have h : l.length = m.length := Nat.succ.inj h
      cases l with
      | nil =>
        obtain rfl := List.eq_nil_of_length_eq_zero h.symm
        rfl
      | cons x' l =>
        cases m with
        | nil => cases h
        | cons y' m => exact congrArg ((x, y) :: ·) (ih (y' :: m) h)

/-- the first element, and what is left when the last takes its place -/
theorem perm_dropLast {α : Type*} {x y : α} {l : List α} (h : (x :: l)[l.length]? = some y)
    (hl : l ≠ []) : (x :: l).Perm (x :: (((x :: l).set 0 y).dropLast)) := by
  obtain ⟨t, z, rfl⟩ : ∃ t z, l = t ++ [z] := by
    rcases List.eq_nil_or_concat' l with e | ⟨t, z, e⟩
    · exact absurd e hl
    · exact ⟨t, z, e⟩
  have hz : z = y := by
    rw [List.length_append, List.length_singleton, List.getElem?_cons_succ,
      List.getElem?_append_right (Nat.le_refl _), Nat.sub_self] at h
    exact Option.some.inj h
  subst hz
  show (x :: (t ++ [z])).Perm (x :: ((z :: t) ++ [z]).dropLast)
  rw [List.dropLast_concat]
  exact (List.perm_append_singleton z t).cons x

theorem dropRoot_spec (ha : c.scores.length = c.values.length) (h2 : 2 ≤ c.scores.length) :
    ∃ c' root, c.dropRoot = some c' ∧ c'.scores.length = c.scores.length - 1 ∧
      c'.scores.length = c'.values.length ∧ c.pairs = root ::ₘ c'.pairs ∧
      c.scores[0]? = some root.1 ∧
      (∀ i, 0 < i → i < c.scores.length - 1 → c'.key i = c.key i) := by
  obtain ⟨ts, tv, scores, values⟩ := c
  cases scores with
  | nil => exact absurd h2 (Nat.not_succ_le_zero _)
  | cons s scores =>
    cases values with
    | nil => cases ha
    | cons v values =>
      have ha : scores.length = values.length := Nat.succ.inj ha
      have h2 : 1 ≤ scores.length := Nat.le_of_succ_le_succ h2
      obtain ⟨s', hs⟩ : ∃ s', (s :: scores)[scores.length]? = some s' :=
        ⟨_, List.getElem?_eq_getElem (Nat.lt_succ_self _)⟩
      obtain ⟨v', hv⟩ : ∃ v', (v :: values)[scores.length]? = some v' :=
        ⟨_, List.getElem?_eq_getElem (ha ▸ Nat.lt_succ_self _)⟩
      refine ⟨⟨ts, tv, ((s :: scores).set 0 s').dropLast, ((v :: values).set 0 v').dropLast⟩,
        (s, v), ?_, ?_, ?_, ?_, rfl, fun i hi hlt => ?_⟩
      · unfold dropRoot
        dsimp only
        rw [List.length_cons, Nat.add_sub_cancel, hs, hv]
        rfl
      · dsimp only
        rw [List.length_dropLast, List.length_set]
      · dsimp only
        rw [List.length_dropLast, List.length_dropLast, List.length_set, List.length_set,
          List.length_cons, List.length_cons, ha]
      · apply Multiset.coe_eq_coe.mpr
        show ((s, v) :: scores.zip values).Perm _
        rw [zip_dropLast _ _ (by rw [List.length_set, List.length_set, List.length_cons,
          List.length_cons, ha]), zip_set]
        apply perm_dropLast
        · rw [List.length_zip, ← ha, Nat.min_self]
          show ((s :: scores).zip (v :: values))[scores.length]? = some (s', v')
          exact List.getElem?_zip_eq_some.mpr ⟨hs, hv⟩
        · intro e
          have := congrArg List.length e
          rw [List.length_zip, ← ha, Nat.min_self] at this
          exact absurd (h2.trans this.le) (Nat.not_succ_le_zero _)
      · have hlt : i < scores.length := hlt
        obtain ⟨j, rfl⟩ : ∃ j, i = j + 1 := ⟨i - 1, by omega⟩
        show ((((s :: scores).set 0 _).dropLast)[j + 1]?).elim ⊤ _ = _
        rw [List.getElem?_dropLast, if_pos (by rw [List.length_set, List.length_cons]; omega),
          List.getElem?_set_ne (by omega)]
        rfl

theorem fst_le (hord : BinHeap.Ordered c.key) {root : S} (hroot : c.scores[0]? = some root)
    (p : S × V) (hp : p ∈ c.pairs) : root ≤ p.1 := by
  have hmem : p.1 ∈ c.scores := (List.of_mem_zip (Multiset.mem_coe.mp hp)).1
  obtain ⟨i, hi⟩ := List.mem_iff_getElem?.mp hmem
  have hle := hord.root_le i
  rw [key_eq hroot, key_eq hi] at hle
  exact WithTop.coe_le_coe.mp hle

/-- the vectors are aligned, are not empty, and are a heap -/
structure Heaped (c : Columns S V) : Prop where
  aligned : c.scores.length = c.values.length
  pos : 0 < c.scores.length
  ordered : BinHeap.Ordered c.key

theorem push_back_pairs (ha : c.scores.length = c.values.length) (score : S) (value : V) :
    (c.push_back score value).pairs = (score, value) ::ₘ c.pairs := by
  show (((c.scores ++ [score]).zip (c.values ++ [value]) : List (S × V)) : Multiset (S × V)) = _
  rw [List.zip_append ha]
  exact Multiset.coe_eq_coe.mpr (List.perm_append_singleton _ _)

theorem push_back_upFrom (hord : BinHeap.Ordered c.key) (score : S) (value : V) :
    BinHeap.UpFrom (c.push_back score value).key c.scores.length := by
  apply hord.upFrom fun i hi => key_eq_top hi
  intro i hne
  show ((c.scores ++ [score])[i]?).elim ⊤ _ = (c.scores[i]?).elim ⊤ _
  by_cases hi : i < c.scores.length
  · rw [List.getElem?_append_left hi]
  · have hout : (c.scores ++ [score]).length ≤ i := by
      rw [List.length_append, List.length_singleton]
      omega
    rw [List.getElem?_eq_none hout, List.getElem?_eq_none (Nat.le_of_not_lt hi)]

/-- **`insert`, when the vectors are there.** -/
theorem insert_spec (h : Heaped c) {k : Nat} {m : Multiset (S × V)}
    (hb : TopK.Best Prod.fst k c.pairs m) (score : S) (value : V) :
    ∃ c', c.insert k score value = some c' ∧ Heaped c' ∧
      TopK.Best Prod.fst k c'.pairs ((score, value) ::ₘ m) := by
  have hcard : c.pairs.card = c.scores.length := by
    show (c.scores.zip c.values).length = c.scores.length
    rw [List.length_zip, ← h.aligned, Nat.min_self]
  obtain ⟨least, hroot⟩ : ∃ least, c.scores[0]? = some least :=
    ⟨_, List.getElem?_eq_getElem h.pos⟩
  unfold insert
  rw [hroot, Option.bind_some]
  by_cases hno : score < least ∧ k ≤ c.scores.length
  · rw [if_pos hno]
    refine ⟨c, rfl, h, hb.reject (by omega) fun p hp => ?_⟩
    exact hno.1.le.trans (fst_le h.ordered hroot p hp)
  · rw [if_neg hno]
    have hlen : (c.push_back score value).scores.length = c.scores.length + 1 := by
      show (c.scores ++ [score]).length = _
      rw [List.length_append, List.length_singleton]
    have hval : (c.push_back score value).values.length = c.scores.length + 1 := by
      show (c.values ++ [value]).length = _
      rw [List.length_append, List.length_singleton, h.aligned]
    obtain ⟨c₁, hc₁, hsame, hord₁⟩ := siftUp_spec (c.scores.length + 1) (hlen.trans hval.symm)
      (by rw [hlen]; exact Nat.lt_succ_self _) (Nat.lt_succ_self _)
      (push_back_upFrom h.ordered score value)
    have hlen₁ : c₁.scores.length = c.scores.length + 1 := hsame.scores.trans hlen
    have ha₁ : c₁.scores.length = c₁.values.length := hlen₁.trans (hsame.values.trans hval).symm
    have hpairs₁ : c₁.pairs = (score, value) ::ₘ c.pairs :=
      hsame.pairs.trans (push_back_pairs h.aligned score value)
    rw [hc₁, Option.bind_some]
    by_cases hfit : c₁.scores.length ≤ k
    · rw [if_pos hfit]
      refine ⟨c₁, rfl, ⟨ha₁, by omega, hord₁⟩, ?_⟩
      rw [hpairs₁]
      exact hb.add (by omega) _
    · rw [if_neg hfit]
      have hpos := h.pos
      obtain ⟨c₂, root, hc₂, hlen₂, ha₂, hpairs₂, hroot₂, hkey₂⟩ := dropRoot_spec ha₁ (by omega)
      have hdown : BinHeap.DownFrom c₂.key 0 := by
        apply hord₁.downFrom hkey₂
        intro i _ hi
        exact key_eq_top (by omega)
      obtain ⟨c₃, hc₃, hsame₃, hord₃⟩ := siftDown_spec (c₂.scores.length + 1) ha₂ (by omega)
        (by omega) hdown
      rw [hc₂, Option.bind_some]
      refine ⟨c₃, hc₃, ⟨?_, ?_, hord₃⟩, ?_⟩
      · rw [hsame₃.scores, hsame₃.values, ha₂]
      · rw [hsame₃.scores]
        omega
      · rw [hsame₃.pairs]
        refine hb.replace (by omega) (hpairs₁.symm.trans hpairs₂) fun p hp => ?_
        apply fst_le hord₁ hroot₂
        rw [hpairs₂]
        exact Multiset.mem_cons_of_mem hp

end Columns

/-! ## The queues that are made -/

namespace TopKQueue
variable [LinearOrder S]

/-- the three kinds of queues -/
inductive Shape (k : Nat) : TopKQueue S V → Nat → Prop
  | zero (score : S) (value : V) : Shape k ⟨k, true, score, value, none, none⟩ 0
  | one (score : S) (value : V) : Shape k ⟨k, false, score, value, none, none⟩ 1
  | more (c : Columns S V) (i : Nat) : Columns.Heaped c → 2 ≤ i →
      Shape k ⟨k, false, c.tempScore, c.tempValue, some c.scores, some c.values⟩ i

/-- a queue that was made of so many pairs, and holds the best of them -/
def Ok (k : Nat) (q : TopKQueue S V) (m : Multiset (S × V)) (n : Nat) : Prop :=
  Shape k q n ∧ TopK.Best Prod.fst k q.pairs m

variable {k n n₂ : Nat} {q q' q₂ : TopKQueue S V} {m m₂ : Multiset (S × V)}

theorem single_ok (hk : 1 ≤ k) (score : S) (value : V) :
    Ok k (single k score value) {(score, value)} 1 := by
  have hzero : TopK.Best Prod.fst k (0 : Multiset (S × V)) 0 := .zero
  have h := hzero.add hk (score, value)
  exact ⟨.one score value, h⟩

/-- a heap of one -/
theorem heaped_one (a b : S) (v w : V) : Columns.Heaped ⟨a, v, [b], [w]⟩ := by
  refine ⟨rfl, Nat.one_pos, fun i hi => ?_⟩
  rw [Columns.key_eq_top (i := i) (by exact hi)]
  exact le_top

theorem insert_ok (hk : 1 ≤ k) (h : Ok k q m n) (score : S) (value : V) :
    ∃ q', q.insert score value = some q' ∧ Ok k q' ((score, value) ::ₘ m) (n + 1) := by
  obtain ⟨hshape, hbest⟩ := h
  cases hshape with
  | zero s v =>
    exact ⟨_, rfl, .one score value, hbest.add hk (score, value)⟩
  | one s v =>
    obtain ⟨c, hc, hheap, hbest'⟩ := Columns.insert_spec (heaped_one s s v v) hbest score value
    refine ⟨(⟨k, false, s, v, none, none⟩ : TopKQueue S V).setColumns c, ?_,
      .more c 2 hheap (Nat.le_refl 2), hbest'⟩
    show ((⟨s, v, [s], [v]⟩ : Columns S V).insert k score value).map _ = _
    rw [hc]
    rfl
  | more c _ hheap hn =>
    obtain ⟨c', hc', hheap', hbest'⟩ := Columns.insert_spec hheap hbest score value
    refine ⟨(⟨k, false, c.tempScore, c.tempValue, some c.scores, some c.values⟩ :
      TopKQueue S V).setColumns c', ?_, .more c' _ hheap' (by omega), hbest'⟩
    show (c.insert k score value).map _ = _
    rw [hc']
    rfl

theorem insertAll_ok (hk : 1 ≤ k) (scores : List S) : ∀ {values : List V} {q : TopKQueue S V}
    {m : Multiset (S × V)} {n : Nat}, scores.length = values.length → Ok k q m n →
    ∃ q', q.insertAll scores values = some q' ∧
      Ok k q' (m + ↑(scores.zip values)) (n + scores.length) := by
  induction scores with
  | nil =>
    intro values q m n _ h
    refine ⟨q, rfl, ?_⟩
    rw [List.zip_nil_left, Multiset.coe_nil, add_zero]
    exact h
  | cons score scores ih =>
    intro values q m n hlen h
    cases values with
    | nil => cases hlen
    | cons value values =>
      obtain ⟨q₁, hq₁, hok₁⟩ := insert_ok hk h score value
      obtain ⟨q', hq', hok'⟩ := ih (Nat.succ.inj hlen) hok₁
      refine ⟨q', ?_, ?_⟩
      · unfold insertAll
        rw [hq₁]
        exact hq'
      · rw [List.zip_cons_cons, ← Multiset.cons_coe, Multiset.add_cons, ← Multiset.cons_add,
          List.length_cons, Nat.add_comm scores.length 1, ← Nat.add_assoc]
        exact hok'

theorem add_ok (hk : 1 ≤ k) (h : Ok k q m n) (h₂ : Ok k q₂ m₂ n₂) :
    ∃ q', q.add q₂ = some q' ∧ Ok k q' (m + m₂) (n + q₂.pairs.card) := by
  obtain ⟨hshape₂, hbest₂⟩ := h₂
  have hmerge : ∀ {q' : TopKQueue S V} {n' : Nat}, Ok k q' (m + q₂.pairs) n' → Ok k q' (m + m₂) n' :=
    fun hq' => ⟨hq'.1, hq'.2.merge hbest₂⟩
  cases hshape₂ with
  | zero s v =>
    refine ⟨q, rfl, hmerge ?_⟩
    show Ok k q (m + 0) n
    rw [add_zero]
    exact h
  | one s v =>
    obtain ⟨q', hq', hok⟩ := insert_ok hk h s v
    refine ⟨q', hq', hmerge ?_⟩
    show Ok k q' (m + {(s, v)}) (n + 1)
    rw [add_comm m]
    exact hok
  | more c _ hheap hn =>
    obtain ⟨q', hq', hok⟩ := insertAll_ok hk c.scores hheap.aligned h
    refine ⟨q', hq', hmerge ?_⟩
    have hcard : (c.scores.zip c.values).length = c.scores.length := by
      rw [List.length_zip, ← hheap.aligned, Nat.min_self]
    show Ok k q' (m + ↑(c.scores.zip c.values)) (n + (c.scores.zip c.values).length)
    rw [hcard]
    exact hok

variable [Inhabited S] [Inhabited V]

theorem Made.ok (hk : 1 ≤ k) (h : Made k q m n) : Ok k q m n := by
  induction h with
  | create => exact ⟨.zero default default, TopK.Best.zero⟩
  | single score value => exact single_ok hk score value
  | insert score value _ hq ih =>
    obtain ⟨q', hq', hok⟩ := insert_ok hk ih score value
    obtain rfl := Option.some.inj (hq.symm.trans hq')
    exact hok
  | add _ _ hq ih ih₂ =>
    obtain ⟨q', hq', hok⟩ := add_ok hk ih ih₂
    obtain rfl := Option.some.inj (hq.symm.trans hq')
    exact hok

theorem Ok.holds (h : Ok k q m n) (hn : 2 ≤ n) : Holds k q m := by
  obtain ⟨hshape, hbest⟩ := h
  cases hshape with
  | zero s v => omega
  | one s v => omega
  | more c _ hheap _ =>
    refine ⟨hbest, congrArg some hheap.aligned, fun scores hs i s t hi hs' ht => ?_, ?_⟩
    · obtain rfl := Option.some.inj hs
      have hle := hheap.ordered i hi
      have hparent : c.key (BinHeap.parent i) = (s : WithTop S) := Columns.key_eq hs'
      rw [hparent, Columns.key_eq ht] at hle
      exact WithTop.coe_le_coe.mp hle
    · show some c.values.length = some (c.scores.zip c.values).length
      rw [List.length_zip, ← hheap.aligned, Nat.min_self]

end TopKQueue
end Netsdb
