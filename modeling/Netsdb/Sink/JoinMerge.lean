import Netsdb.Sink.JoinRecord

/-!
# Maps of a broadcast join are merged (`JoinSinkMerger::writeOut`)

A call that runs out of space saves where it is, and the next one goes on from there.

* `JoinMap.addRecord`         a record is pushed and copied; nothing is taken back;
* `JoinSinkMerger.writeOut`   one call; `calls`: until one comes to the end;
* `todo`                      the records that are left, from the two indices on;
* `merge_once_iff`          the records are there exactly once if and only if no copy fails.
-/

set_option linter.unusedSectionVars false

namespace Netsdb

namespace JoinMap
variable {V : Type*} [Inhabited V]

/-- `push` and `packData` -/
def addRecord (fail : RecordFail V) (m : JoinMap V) (key : Nat) (v : V) : Outcome (JoinMap V) Unit :=
  match m.push (fun site => fail.push.contains site) key with
  | .ret m' temp =>
    match fail.pack with
    | none => .ret (m'.setValue temp v) ()
    | some left => .notEnoughSpace (m'.setValue temp left)
  | .notEnoughSpace m' => .notEnoughSpace m'
  | .fatal => .fatal

/-- the copy into a record that was pushed does not run out of space -/
def Copied (m : JoinMap V) (key : Nat) (fail : RecordFail V) : Prop :=
  match m.push (fun site => fail.push.contains site) key with
  | .ret _ _ => fail.pack = none
  | _ => True

end JoinMap

/-- `mapIndex` counts slots, of which there are at most `2^31`; `listIndex` is an `int` -/
structure JoinSinkMerger where
  numHashKeys : Int
  mapIndex : Nat
  listIndex : Int

/-- what fails in a call: at a record of a list -/
abbrev MergeFails (V : Type*) := Nat → Nat → JoinMap.RecordFail V

namespace JoinSinkMerger
variable {V : Type*} [Inhabited V]

def new : JoinSinkMerger := ⟨0, 0, 0⟩

/-- where the loop over a list begins; a negative index is a `size_t` that is not less than any
size -/
def start (k : JoinSinkMerger) (mySize : Nat) : Nat :=
  if k.listIndex < 0 then mySize else k.listIndex.toNat

/-- the rest of a list, from record `i` on; with the record that has failed -/
def writeList (fail : Nat → JoinMap.RecordFail V) (myHash : Nat) :
    JoinMap V → Nat → List V → Outcome (JoinMap V × Nat) Unit
  | myMap, i, [] => .ret (myMap, i) ()
  | myMap, i, v :: rest =>
    match myMap.addRecord (fail i) myHash v with
    | .ret myMap' _ => writeList fail myHash myMap' (i + 1) rest
    | .notEnoughSpace myMap' => .notEnoughSpace (myMap', i)
    | .fatal => .fatal

/-- the loop over the lists that the iterator gives -/
def writeLists (fails : MergeFails V) :
    JoinSinkMerger → JoinMap V → Nat → List (Nat × List V) → Outcome (JoinSinkMerger × JoinMap V) Unit
  | k, myMap, _, [] => .ret ({ k with mapIndex := 0 }, myMap) ()
  | k, myMap, counter, (myHash, myList) :: rest =>
    if counter < k.mapIndex then writeLists fails k myMap (counter + 1) rest
    else if 0 < myList.length then
      let k := { k with numHashKeys := k.numHashKeys + 1 }
      let i := k.start myList.length
      match writeList (fails counter) myHash myMap i (myList.drop i) with
      | .ret (myMap', _) _ => writeLists fails { k with listIndex := 0 } myMap' (counter + 1) rest
      | .notEnoughSpace (myMap', i) =>
        .notEnoughSpace ({ k with mapIndex := counter, listIndex := JoinPairArray.toInt i }, myMap')
      | .fatal => .fatal
    else writeLists fails k myMap (counter + 1) rest

def writeOut (fails : MergeFails V) (mergeMe : JoinMap V) (k : JoinSinkMerger) (mergeToMe : JoinMap V) :
    Outcome (JoinSinkMerger × JoinMap V) Unit :=
  writeLists fails k mergeToMe 0 mergeMe.iterate

/-- one call after another, up to the first that does not fail -/
def calls (mergeMe : JoinMap V) :
    List (MergeFails V) → JoinSinkMerger → JoinMap V → Option (JoinSinkMerger × JoinMap V)
  | [], _, _ => none
  | fails :: rest, k, m =>
    match writeOut fails mergeMe k m with
    | .ret r _ => some r
    | .notEnoughSpace r => calls mergeMe rest r.1 r.2
    | .fatal => none

/-! ## Conditions on the records of a run -/

section
variable (P : JoinMap V → Nat → JoinMap.RecordFail V → Prop)

/-- `P` holds of every record that is tried, when its turn comes -/
def AlongList (fail : Nat → JoinMap.RecordFail V) (myHash : Nat) : JoinMap V → Nat → List V → Prop
  | _, _, [] => True
  | myMap, i, v :: rest => P myMap myHash (fail i) ∧
    match myMap.addRecord (fail i) myHash v with
    | .ret myMap' _ => AlongList fail myHash myMap' (i + 1) rest
    | _ => True

def AlongLists (fails : MergeFails V) :
    JoinSinkMerger → JoinMap V → Nat → List (Nat × List V) → Prop
  | _, _, _, [] => True
  | k, myMap, counter, (myHash, myList) :: rest =>
    if counter < k.mapIndex then AlongLists fails k myMap (counter + 1) rest
    else if 0 < myList.length then
      let i := k.start myList.length
      AlongList P (fails counter) myHash myMap i (myList.drop i) ∧
        match writeList (fails counter) myHash myMap i (myList.drop i) with
        | .ret (myMap', _) _ =>
          AlongLists fails { k with numHashKeys := k.numHashKeys + 1, listIndex := 0 } myMap'
            (counter + 1) rest
        | _ => True
    else AlongLists fails k myMap (counter + 1) rest

def AlongCalls (mergeMe : JoinMap V) : List (MergeFails V) → JoinSinkMerger → JoinMap V → Prop
  | [], _, _ => True
  | fails :: rest, k, m => AlongLists P fails k m 0 mergeMe.iterate ∧
    match writeOut fails mergeMe k m with
    | .notEnoughSpace r => AlongCalls mergeMe rest r.1 r.2
    | _ => True

end

/-- what grows for a record is given the storage that it asks for -/
def Grows (m : JoinMap V) (key : Nat) (_ : JoinMap.RecordFail V) : Prop := m.CanPush key

/-! ## One record -/

variable {m m' : JoinMap V} {h : Nat} {k k' : JoinSinkMerger} {counter : Nat}
  {lists : List (Nat × List V)}

/-- **One record**: it is there, or what the failed copy has left is there, which is nothing if the
copy was not begun. -/
theorem addRecord_spec {fail : JoinMap.RecordFail V} (hm : m.Good) (hh : hashValOf h = h)
    (hc : m.CanPush h) (v : V) :
    (∃ m', m.addRecord fail h v = .ret m' () ∧ m'.Good ∧ m'.contents = m.contents + {(h, v)} ∧
        m.Copied h fail) ∨
      ∃ m' extra, m.addRecord fail h v = .notEnoughSpace m' ∧ m'.Good ∧
        m'.contents = m.contents + extra ∧ (extra = 0 ↔ m.Copied h fail) := by
  unfold JoinMap.addRecord JoinMap.Copied
  obtain ⟨m₁, hpush, hk, -⟩ | ⟨m₁, r, hpush, hp, href⟩ :=
    JoinMap.push_spec (fun site => fail.push.contains site) hm hc
  · refine Or.inr ⟨m₁, 0, by rw [hpush], hk.good, ?_, ?_⟩
    · rw [add_zero]
      exact JoinMap.contents_congr hm.sound.readable hk.good.sound.readable hk.records
    · rw [hpush]
      exact iff_of_true rfl trivial
  · rw [hh] at hp href
    rw [hpush]
    cases hpack : fail.pack with
    | none =>
      have hw := hp.setValue href v
      exact Or.inl ⟨m₁.setValue r v, rfl, hw.good, hw.contents hm, rfl⟩
    | some left =>
      have hw := hp.setValue href left
      refine Or.inr ⟨m₁.setValue r left, {(h, left)}, rfl, hw.good, hw.contents hm, ?_⟩
      exact iff_of_false (Multiset.singleton_ne_zero _) (by simp)

/-! ## One list -/

/-- **The rest of a list**: all of it is written, or the records from the failed one on are left. -/
theorem writeList_spec {fail : Nat → JoinMap.RecordFail V} (hh : hashValOf h = h) (l : List V) :
    ∀ {m : JoinMap V} {i : Nat}, m.Good → AlongList Grows fail h m i l →
      (∃ m' n, writeList fail h m i l = .ret (m', n) () ∧ m'.Good ∧
          m'.contents = m.contents + Tally.tag h l ∧ AlongList JoinMap.Copied fail h m i l) ∨
        ∃ m' j extra, writeList fail h m i l = .notEnoughSpace (m', i + j) ∧ j < l.length ∧ m'.Good ∧
          m'.contents + Tally.tag h (l.drop j) = m.contents + Tally.tag h l + extra ∧
          (extra = 0 ↔ AlongList JoinMap.Copied fail h m i l) := by
  induction l with
  | nil =>
    intro m i hm _
    exact Or.inl ⟨m, i, rfl, hm, (add_zero _).symm, trivial⟩
  | cons v rest ih =>
    intro m i hm hfine
    obtain ⟨hc, hfine⟩ := hfine
    have htag : Tally.tag h (v :: rest) = {(h, v)} + Tally.tag h rest := rfl
    rw [AlongList, writeList]
    obtain ⟨m₁, hrun, hm₁, hcont, hcopied⟩ | ⟨m₁, extra, hrun, hm₁, hcont, hiff⟩ :=
      addRecord_spec hm hh hc v
    · rw [hrun] at hfine ⊢
      dsimp only at hfine ⊢
      rw [htag]
      obtain ⟨m₂, n, hrest, hm₂, hcont₂, hall⟩ | ⟨m₂, j, extra, hrest, hj, hm₂, hcont₂, hiff⟩ :=
        ih hm₁ hfine
      · refine Or.inl ⟨m₂, n, hrest, hm₂, ?_, hcopied, hall⟩
        rw [hcont₂, hcont, add_assoc]
      · refine Or.inr ⟨m₂, j + 1, extra, ?_, Nat.succ_lt_succ hj, hm₂, ?_, ?_⟩
        · rw [hrest, Nat.add_assoc, Nat.add_comm 1]
        · rw [List.drop_succ_cons, hcont₂, hcont, add_assoc m.contents]
        · rw [hiff]
          exact (and_iff_right hcopied).symm
    · rw [hrun]
      refine Or.inr ⟨m₁, 0, extra, rfl, Nat.succ_pos _, hm₁, ?_, ?_⟩
      · rw [List.drop_zero, hcont, add_right_comm]
      · rw [hiff]
        exact (and_iff_left trivial).symm

/-! ## One call -/

/-- the records from the two indices on -/
def todo : JoinSinkMerger → Nat → List (Nat × List V) → Multiset (Nat × V)
  | _, _, [] => 0
  | k, counter, (myHash, myList) :: rest =>
    if counter < k.mapIndex then todo k (counter + 1) rest
    else if 0 < myList.length then
      Tally.tag myHash (myList.drop (k.start myList.length)) +
        todo { k with listIndex := 0 } (counter + 1) rest
    else todo k (counter + 1) rest

/-- once the lists that were done are behind, only `listIndex` counts -/
theorem todo_congr (lists : List (Nat × List V)) : ∀ {k k' : JoinSinkMerger} {counter : Nat},
    k.mapIndex ≤ counter → k'.mapIndex ≤ counter → k'.listIndex = k.listIndex →
    todo k' counter lists = todo k counter lists := by
  induction lists with
  | nil => exact fun _ _ _ => rfl
  | cons e rest ih =>
    intro k k' counter hk hk' hl
    rw [todo, todo, if_neg (Nat.not_lt_of_le hk), if_neg (Nat.not_lt_of_le hk')]
    have hstart : k'.start e.2.length = k.start e.2.length := by
      rw [start, start, hl]
    rw [hstart, @ih k k' (counter + 1) (Nat.le_succ_of_le hk) (Nat.le_succ_of_le hk') hl,
      @ih { k with listIndex := 0 } { k' with listIndex := 0 } (counter + 1)
        (Nat.le_succ_of_le hk) (Nat.le_succ_of_le hk') rfl]

theorem todo_new (lists : List (Nat × List V)) : ∀ {k : JoinSinkMerger} {counter : Nat},
    k.mapIndex = 0 → k.listIndex = 0 → todo k counter lists =
      ↑(lists.flatMap fun e => e.2.map fun v => (e.1, v)) := by
  induction lists with
  | nil => exact fun _ _ => rfl
  | cons e rest ih =>
    intro k counter hk hl
    have hstart : k.start e.2.length = 0 := by
      rw [start, hl]
      rfl
    rw [todo, if_neg (by omega), List.flatMap_cons, ← Multiset.coe_add, hstart, List.drop_zero,
      @ih k (counter + 1) hk hl, @ih { k with listIndex := 0 } (counter + 1) hk rfl]
    split_ifs with hpos
    · rfl
    · rw [List.length_eq_zero_iff.mp (Nat.eq_zero_of_not_pos hpos), List.map_nil, Multiset.coe_nil,
        zero_add]

/-- a list that was begun is there -/
def Saved (k : JoinSinkMerger) (counter : Nat) (lists : List (Nat × List V)) : Prop :=
  k.listIndex = 0 ∨ counter ≤ k.mapIndex ∧ ∃ e ∈ lists[k.mapIndex - counter]?, 0 < e.2.length

/-- no list is of the unused hash, and the sizes are `int`s -/
def Readable (lists : List (Nat × List V)) : Prop :=
  ∀ e ∈ lists, hashValOf e.1 = e.1 ∧ e.2.length < 2 ^ 31

/-- the iterator goes over the slots that are used -/
theorem readable_iterate (hsmall : ∀ e ∈ m.iterate, e.2.length < 2 ^ 31) : Readable m.iterate := by
  intro e he
  refine ⟨JoinPairArray.hashValOf_of_ne ?_, hsmall e he⟩
  obtain ⟨x, hx, rfl⟩ := List.mem_map.mp he
  have hmem := (List.mem_insertionSort JoinPairArray.ByHash).mp hx
  obtain ⟨slot, -, hslot⟩ := List.mem_filterMap.mp hmem
  split_ifs at hslot with hused
  rw [← Option.some.inj hslot]
  exact hused

theorem toInt_of_lt {n : Nat} (h : n < 2 ^ 31) : JoinPairArray.toInt n = n := by
  unfold JoinPairArray.toInt
  rw [Nat.mod_eq_of_lt (by omega), if_pos h]

theorem Saved.tail {e : Nat × List V} (hs : Saved k counter (e :: lists))
    (hlt : counter < k.mapIndex) : Saved k (counter + 1) lists := by
  rcases hs with hzero | ⟨-, hmem⟩
  · exact .inl hzero
  · refine .inr ⟨hlt, ?_⟩
    rw [show k.mapIndex - counter = k.mapIndex - (counter + 1) + 1 by omega,
      List.getElem?_cons_succ] at hmem
    exact hmem

theorem Saved.cons {e : Nat × List V} (hs : Saved k (counter + 1) lists) :
    Saved k counter (e :: lists) := by
  rcases hs with hzero | ⟨hle, hmem⟩
  · exact .inl hzero
  · refine .inr ⟨Nat.le_of_succ_le hle, ?_⟩
    rw [show k.mapIndex - counter = k.mapIndex - (counter + 1) + 1 by omega,
      List.getElem?_cons_succ]
    exact hmem

/-- what a call does with the lists from `counter` on: it comes to the end, or it saves where it
is; `ok`: no copy has failed -/
def Written (k : JoinSinkMerger) (m : JoinMap V) (counter : Nat) (lists : List (Nat × List V))
    (ok : Prop) : Outcome (JoinSinkMerger × JoinMap V) Unit → Prop
  | .ret r _ => r.2.Good ∧ r.2.contents = m.contents + todo k counter lists ∧ ok ∧
      r.1.mapIndex = 0 ∧ r.1.listIndex = 0
  | .notEnoughSpace r => r.2.Good ∧ counter ≤ r.1.mapIndex ∧ Saved r.1 counter lists ∧
      ∃ extra, r.2.contents + todo r.1 counter lists = m.contents + todo k counter lists + extra ∧
        (extra = 0 ↔ ok)
  | .fatal => False

/-- a list of which nothing is written -/
theorem Written.skip {k₀ : JoinSinkMerger} {m₀ : JoinMap V} {e : Nat × List V} {ok ok' : Prop}
    {o : Outcome (JoinSinkMerger × JoinMap V) Unit} {x : Multiset (Nat × V)}
    (hw : Written k m (counter + 1) lists ok o) (hm : m.contents = m₀.contents + x)
    (htodo : todo k₀ counter (e :: lists) = x + todo k (counter + 1) lists) (hok : ok' ↔ ok) :
    Written k₀ m₀ counter (e :: lists) ok' o := by
  have hsum : m.contents + todo k (counter + 1) lists =
      m₀.contents + todo k₀ counter (e :: lists) := by
    rw [hm, htodo, add_assoc]
  cases o with
  | ret r _ =>
    obtain ⟨hgood, hcont, hdone, hzero⟩ := hw
    exact ⟨hgood, hcont.trans hsum, hok.mpr hdone, hzero⟩
  | notEnoughSpace r =>
    obtain ⟨hgood, hle, hsaved, extra, hcont, hiff⟩ := hw
    refine ⟨hgood, Nat.le_of_succ_le hle, hsaved.cons, extra, ?_, hiff.trans hok.symm⟩
    rw [todo, if_pos (show counter < r.1.mapIndex from hle), hcont, hsum]
  | fatal => exact hw

/-- **One call.** -/
theorem writeLists_spec {fails : MergeFails V} (lists : List (Nat × List V)) :
    ∀ {k : JoinSinkMerger} {m : JoinMap V} {counter : Nat}, m.Good → Readable lists →
      Saved k counter lists → AlongLists Grows fails k m counter lists →
      Written k m counter lists (AlongLists JoinMap.Copied fails k m counter lists)
        (writeLists fails k m counter lists) := by
  induction lists with
  | nil =>
    intro k m counter hm _ hs _
    refine ⟨hm, (add_zero _).symm, trivial, rfl, ?_⟩
    rcases hs with hzero | ⟨-, e, he, -⟩
    · exact hzero
    · cases he
  | cons e rest ih =>
    intro k m counter hm hr hs hfine
    obtain ⟨h, l⟩ := e
    obtain ⟨hh, hsmall⟩ := hr (h, l) List.mem_cons_self
    change hashValOf h = h at hh
    change l.length < 2 ^ 31 at hsmall
    have hrest : Readable rest := fun e he => hr e (List.mem_cons_of_mem _ he)
    rw [AlongLists] at hfine
    rw [writeLists, AlongLists]
    by_cases hlt : counter < k.mapIndex
    · rw [if_pos hlt] at hfine ⊢
      rw [if_pos hlt]
      refine (ih hm hrest (hs.tail hlt) hfine).skip (x := 0) (add_zero _).symm ?_ Iff.rfl
      rw [todo, if_pos hlt, zero_add]
    · rw [if_neg hlt] at hfine ⊢
      rw [if_neg hlt]
      by_cases hpos : 0 < l.length
      · rw [if_pos hpos] at hfine ⊢
        rw [if_pos hpos]
        obtain ⟨hlist, hfine⟩ := hfine
        dsimp only at hlist hfine ⊢
        have hbehind : ∀ k' : JoinSinkMerger, k'.mapIndex ≤ counter → k'.listIndex = 0 →
            todo k' (counter + 1) rest = todo { k with listIndex := 0 } (counter + 1) rest :=
          fun k' hle hzero => todo_congr rest (Nat.le_succ_of_le (Nat.le_of_not_lt hlt))
            (Nat.le_succ_of_le hle) hzero
        have hk : start { k with numHashKeys := k.numHashKeys + 1 } l.length = k.start l.length := rfl
        rw [hk]
        obtain ⟨m₁, n, hrun, hm₁, hcont, hcopied⟩ | ⟨m₁, j, extra, hrun, hj, hm₁, hcont, hiff⟩ :=
          writeList_spec hh (l.drop (k.start l.length)) hm hlist
        · rw [hrun] at hfine ⊢
          dsimp only at hfine ⊢
          refine (ih hm₁ hrest (.inl rfl) hfine).skip hcont ?_ (and_iff_right hcopied)
          rw [todo, if_neg hlt, if_pos hpos, hbehind { k with
            numHashKeys := k.numHashKeys + 1, listIndex := 0 } (Nat.le_of_not_lt hlt) rfl]
        · rw [hrun]
          dsimp only
          rw [List.length_drop] at hj
          have hint := toInt_of_lt (n := k.start l.length + j) (by omega)
          rw [hint]
          refine ⟨hm₁, Nat.le_refl _, .inr ⟨Nat.le_refl _, (h, l), ?_, hpos⟩, extra, ?_, ?_⟩
          · rw [Nat.sub_self]
            rfl
          · have hstart : start ⟨k.numHashKeys + 1, counter, (k.start l.length + j : Nat)⟩ l.length =
                k.start l.length + j := by
              rw [start, if_neg (Int.not_lt.mpr (Int.natCast_nonneg _)), Int.toNat_natCast]
            rw [todo, if_neg (Nat.lt_irrefl _), if_pos hpos, hstart, todo, if_neg hlt, if_pos hpos,
              ← List.drop_drop, ← add_assoc, hcont, ← add_assoc,
              hbehind ⟨k.numHashKeys + 1, counter, 0⟩ (Nat.le_refl _) rfl]
            exact add_right_comm _ _ _
          · rw [hiff]
            exact (and_iff_left trivial).symm
      · rw [if_neg hpos] at hfine ⊢
        rw [if_neg hpos]
        have hs' : Saved k (counter + 1) rest := by
          rcases hs with hzero | ⟨hle, e, he, hpos'⟩
          · exact .inl hzero
          · have heq : k.mapIndex - counter = 0 := by omega
            rw [heq] at he
            rw [← Option.some.inj he] at hpos'
            exact absurd hpos' hpos
        refine (ih hm hrest hs' hfine).skip (x := 0) (add_zero _).symm ?_ Iff.rfl
        rw [todo, if_neg hlt, if_neg hpos, zero_add]

/-! ## All calls -/

/-- what is left over by the copies that have failed -/
theorem calls_spec {mergeMe : JoinMap V} (hr : Readable mergeMe.iterate)
    (calls : List (MergeFails V)) : ∀ {k : JoinSinkMerger} {m : JoinMap V}
      {r : JoinSinkMerger × JoinMap V}, m.Good → Saved k 0 mergeMe.iterate →
      AlongCalls Grows mergeMe calls k m → JoinSinkMerger.calls mergeMe calls k m = some r →
      r.1.mapIndex = 0 ∧ r.1.listIndex = 0 ∧
        ∃ extra, r.2.contents = m.contents + todo k 0 mergeMe.iterate + extra ∧
          (extra = 0 ↔ AlongCalls JoinMap.Copied mergeMe calls k m) := by
  induction calls with
  | nil =>
    intro k m r _ _ _ hrun
    cases hrun
  | cons fails rest ih =>
    intro k m r hm hs hfine hrun
    obtain ⟨hcall, hfine⟩ := hfine
    have hw := writeLists_spec mergeMe.iterate hm hr hs hcall
    rw [JoinSinkMerger.calls] at hrun
    rw [AlongCalls]
    unfold writeOut at hfine hrun ⊢
    cases ho : writeLists fails k m 0 mergeMe.iterate with
    | ret r' _ =>
      rw [ho] at hw hrun
      obtain rfl := Option.some.inj hrun
      obtain ⟨-, hcont, hok, hmap, hlist⟩ := hw
      refine ⟨hmap, hlist, 0, hcont.trans (add_zero _).symm, ?_⟩
      exact iff_of_true rfl ⟨hok, trivial⟩
    | notEnoughSpace r' =>
      rw [ho] at hw hrun hfine
      obtain ⟨hm', -, hs', extra, hcont, hiff⟩ := hw
      obtain ⟨hmap, hlist, extra', hcont', hiff'⟩ := ih hm' hs' hfine hrun
      refine ⟨hmap, hlist, extra + extra', ?_, ?_⟩
      · rw [hcont', hcont, add_assoc]
      · dsimp only
        rw [← hiff, ← hiff', ← Multiset.card_eq_zero, Multiset.card_add, Nat.add_eq_zero_iff,
          Multiset.card_eq_zero, Multiset.card_eq_zero]
    | fatal =>
      rw [ho] at hw
      exact hw.elim

/-- **The merge of a map.**  When a call comes to the end, the indices are back at `0`; the merged
map has its earlier records and every record of the other map exactly once, if and only if no copy
has failed. -/
theorem merge_once_iff {mergeMe : JoinMap V} {fails : List (MergeFails V)} {k : JoinSinkMerger}
    {r : JoinSinkMerger × JoinMap V} (hm : m.Good)
    (hsmall : ∀ e ∈ mergeMe.iterate, e.2.length < 2 ^ 31)
    (hmap : k.mapIndex = 0) (hlist : k.listIndex = 0) (hgrows : AlongCalls Grows mergeMe fails k m)
    (hrun : calls mergeMe fails k m = some r) :
    r.1.mapIndex = 0 ∧ r.1.listIndex = 0 ∧ (r.2.contents = m.contents + mergeMe.contents ↔
      AlongCalls JoinMap.Copied mergeMe fails k m) := by
  obtain ⟨hmap', hlist', extra, hcont, hiff⟩ :=
    calls_spec (readable_iterate hsmall) fails hm (.inl hlist) hgrows hrun
  refine ⟨hmap', hlist', ?_⟩
  rw [← hiff, hcont, todo_new mergeMe.iterate hmap hlist]
  show m.contents + mergeMe.contents + extra = m.contents + mergeMe.contents ↔ _
  exact add_eq_left

/-! ## Examples -/

section
variable (P : JoinMap V → Nat → JoinMap.RecordFail V → Prop) [∀ m h fail, Decidable (P m h fail)]

instance decidableAlongList (fail : Nat → JoinMap.RecordFail V) (myHash : Nat) :
    (myMap : JoinMap V) → (i : Nat) → (l : List V) → Decidable (AlongList P fail myHash myMap i l)
  | _, _, [] => .isTrue trivial
  | myMap, i, v :: rest =>
    have : Decidable (match myMap.addRecord (fail i) myHash v with
        | .ret myMap' _ => AlongList P fail myHash myMap' (i + 1) rest
        | _ => True) :=
      match myMap.addRecord (fail i) myHash v with
      | .ret myMap' _ => decidableAlongList fail myHash myMap' (i + 1) rest
      | .notEnoughSpace _ => .isTrue trivial
      | .fatal => .isTrue trivial
    inferInstanceAs (Decidable (_ ∧ _))

instance decidableAlongLists (fails : MergeFails V) : (k : JoinSinkMerger) → (myMap : JoinMap V) →
    (counter : Nat) → (lists : List (Nat × List V)) →
    Decidable (AlongLists P fails k myMap counter lists)
  | _, _, _, [] => .isTrue trivial
  | k, myMap, counter, (myHash, myList) :: rest =>
    have := decidableAlongLists fails k myMap (counter + 1) rest
    let i := k.start myList.length
    have : Decidable (match writeList (fails counter) myHash myMap i (myList.drop i) with
        | .ret (myMap', _) _ =>
          AlongLists P fails { k with numHashKeys := k.numHashKeys + 1, listIndex := 0 } myMap'
            (counter + 1) rest
        | _ => True) :=
      match writeList (fails counter) myHash myMap i (myList.drop i) with
      | .ret (myMap', _) _ => decidableAlongLists fails _ myMap' (counter + 1) rest
      | .notEnoughSpace _ => .isTrue trivial
      | .fatal => .isTrue trivial
    if h : counter < k.mapIndex then
      decidable_of_iff (AlongLists P fails k myMap (counter + 1) rest)
        (by rw [AlongLists, if_pos h])
    else if h' : 0 < myList.length then
      decidable_of_iff (AlongList P (fails counter) myHash myMap i (myList.drop i) ∧
          match writeList (fails counter) myHash myMap i (myList.drop i) with
          | .ret (myMap', _) _ =>
            AlongLists P fails { k with numHashKeys := k.numHashKeys + 1, listIndex := 0 } myMap'
              (counter + 1) rest
          | _ => True)
        (by rw [AlongLists, if_neg h, if_pos h'])
    else
      decidable_of_iff (AlongLists P fails k myMap (counter + 1) rest)
        (by rw [AlongLists, if_neg h, if_neg h'])

instance decidableAlongCalls (mergeMe : JoinMap V) : (fails : List (MergeFails V)) →
    (k : JoinSinkMerger) → (m : JoinMap V) → Decidable (AlongCalls P mergeMe fails k m)
  | [], _, _ => .isTrue trivial
  | fails :: rest, k, m =>
    have : Decidable (match writeOut fails mergeMe k m with
        | .notEnoughSpace r => AlongCalls P mergeMe rest r.1 r.2
        | _ => True) :=
      match writeOut fails mergeMe k m with
      | .ret _ _ => .isTrue trivial
      | .notEnoughSpace r => decidableAlongCalls mergeMe rest r.1 r.2
      | .fatal => .isTrue trivial
    inferInstanceAs (Decidable (_ ∧ _))

end

instance (m : JoinMap V) (key : Nat) (fail : JoinMap.RecordFail V) : Decidable (Grows m key fail) :=
  inferInstanceAs (Decidable (m.CanPush key))

instance [DecidableEq V] (m : JoinMap V) (key : Nat) (fail : JoinMap.RecordFail V) :
    Decidable (m.Copied key fail) := by
  unfold JoinMap.Copied
  split <;> infer_instance

/-- these steps of the push of record `i` of list `counter` fail, or the copy into it -/
def mergeFailsAt (counter i : Nat) (push : List JoinSite) (pack : Option Nat) : MergeFails Nat :=
  fun c j => if c = counter ∧ j = i then ⟨push, pack⟩ else ⟨[], none⟩

/-- the records of these hashes in a new map -/
def mapOf (rows : List (Nat × Nat)) : Option (JoinMap Nat) :=
  (JoinMap.create smallLayouts 2 0 1).bind fun m => rows.foldlM JoinMap.pushValue m

/-- three records of two hashes go to a new map; the push of the second record of `7` fails, and
the next call goes on with it -/
theorem merge_once_iff_retry : ∃ (m mergeMe : JoinMap Nat) (r : JoinSinkMerger × JoinMap Nat),
    calls mergeMe [mergeFailsAt 0 1 [.temp] none, fun _ _ => ⟨[], none⟩] new m = some r ∧
      mergeMe.iterate = [(7, [70, 71]), (9, [90])] ∧ r.1.mapIndex = 0 ∧ r.1.listIndex = 0 ∧
      r.2.contents = m.contents + mergeMe.contents := by
  obtain ⟨m, hm, hg, -⟩ := JoinMap.create_spec (V := Nat) (l := smallLayouts) (p := 0) (k := 1)
    (Nat.le_refl 2) (by decide) (by decide)
  have hrun : ((JoinMap.create smallLayouts 2 0 1).bind fun m =>
      (mapOf [(9, 90), (7, 70), (7, 71)]).bind fun mergeMe =>
      (calls mergeMe [mergeFailsAt 0 1 [.temp] none, fun _ _ => ⟨[], none⟩] new m).map fun _ =>
        (mergeMe.iterate,
          decide (AlongCalls Grows mergeMe
            [mergeFailsAt 0 1 [.temp] none, fun _ _ => ⟨[], none⟩] new m),
          decide (AlongCalls JoinMap.Copied mergeMe
            [mergeFailsAt 0 1 [.temp] none, fun _ _ => ⟨[], none⟩] new m))) =
      some ([(7, [70, 71]), (9, [90])], true, true) := by decide +kernel
  rw [hm, Option.bind_some] at hrun
  obtain ⟨mergeMe, -, hrun⟩ := Option.bind_eq_some_iff.mp hrun
  obtain ⟨r, hr, hrest⟩ := Option.map_eq_some_iff.mp hrun
  obtain ⟨hit, hrest⟩ := Prod.mk.inj hrest
  obtain ⟨hgrows, hcopied⟩ := Prod.mk.inj hrest
  have hsmall : ∀ e ∈ mergeMe.iterate, e.2.length < 2 ^ 31 := by
    rw [hit]
    decide
  obtain ⟨hmap, hlist, hiff⟩ := merge_once_iff hg hsmall rfl rfl (of_decide_eq_true hgrows) hr
  exact ⟨m, mergeMe, r, hr, hit, hmap, hlist, hiff.mpr (of_decide_eq_true hcopied)⟩

/-- **A copy that fails**: what it has left stays in the merged map, and the next call pushes the
record again -/
theorem merge_once_not_always : ¬ ∀ (mergeMe m : JoinMap Nat) (fails : List (MergeFails Nat))
    (r : JoinSinkMerger × JoinMap Nat), m.Good → (∀ e ∈ mergeMe.iterate, e.2.length < 2 ^ 31) →
    AlongCalls Grows mergeMe fails new m → calls mergeMe fails new m = some r →
    r.2.contents = m.contents + mergeMe.contents := by
  intro hall
  obtain ⟨m, hm, hg, -⟩ := JoinMap.create_spec (V := Nat) (l := smallLayouts) (p := 0) (k := 1)
    (Nat.le_refl 2) (by decide) (by decide)
  have hrun : ((JoinMap.create smallLayouts 2 0 1).bind fun m => (mapOf [(7, 70)]).bind fun mergeMe =>
      (calls mergeMe [mergeFailsAt 0 0 [] (some 5), fun _ _ => ⟨[], none⟩] new m).map fun r =>
        ([m.iterate, mergeMe.iterate, r.2.iterate],
          decide (AlongCalls Grows mergeMe
            [mergeFailsAt 0 0 [] (some 5), fun _ _ => ⟨[], none⟩] new m))) =
      some ([[], [(7, [70])], [(7, [5, 70])]], true) := by decide +kernel
  rw [hm, Option.bind_some] at hrun
  obtain ⟨mergeMe, -, hrun⟩ := Option.bind_eq_some_iff.mp hrun
  obtain ⟨r, hr, hrest⟩ := Option.map_eq_some_iff.mp hrun
  obtain ⟨hlists, hgrows⟩ := Prod.mk.inj hrest
  obtain ⟨hempty, hlists⟩ := List.cons.inj hlists
  obtain ⟨hit, hlists⟩ := List.cons.inj hlists
  obtain ⟨hout, -⟩ := List.cons.inj hlists
  have hsmall : ∀ e ∈ mergeMe.iterate, e.2.length < 2 ^ 31 := by
    rw [hit]
    decide
  have hcont := hall mergeMe m _ r hg hsmall (of_decide_eq_true hgrows) hr
  unfold JoinMap.contents at hcont
  rw [hit, hempty, hout] at hcont
  revert hcont
  decide

end JoinSinkMerger
end Netsdb
