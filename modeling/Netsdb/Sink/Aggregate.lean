import Netsdb.BuiltIn.MapRetry

/-!
# A value is added to the entry of its key

`HashSink`, `ShuffleSink`, `CombinedShuffleSink` and `CombinerProcessor` look the key up, make an
entry of the value if it is new, and else replace the old value by the old value `+` the value.

* `PDBMap.aggregate`   the body of their loops;
* `aggregate_spec`     the value is added, or, when the call fails and the condition is met, every
                       key has what it had before.
-/

set_option linter.unusedSectionVars false

namespace Netsdb

/-- what fails when a value is added; an assignment that fails leaves some value behind -/
structure AggregateFail (V : Type*) where
  /-- the steps of `operator[]` that run out of space, if they are taken -/
  index : List MapSite
  /-- `*temp = value` -/
  assign : Option V
  /-- `ValueType copy = temp` -/
  copy : Bool
  /-- `temp = copy + value` -/
  add : Option V
  /-- `temp = copy`, in the handler -/
  restore : Option V

/-- how it ends: `caught` by one of the handlers, which throws again, or outside of them -/
inductive Aggregated (K V : Type*)
  | done (m : PDBMap K V)
  | caught (m : PDBMap K V)
  | uncaught (m : PDBMap K V)
  | fatal

namespace PDBMap
variable {K V : Type*} [BEq K] [Hashable K] [Inhabited K] [Inhabited V] [AddSemigroup V]

def aggregate (fail : AggregateFail V) (m : PDBMap K V) (key : K) (value : V) : Aggregated K V :=
  if m.count key = 0 then
    match m.index (fun site => fail.index.contains site) key with
    | .ret m temp =>
      match fail.assign with
      | none => .done (m.setValue temp value)
      | some left => .caught ((m.setValue temp left).setUnused key)
    | .notEnoughSpace m => .caught m
    | .fatal => .fatal
  else
    match m.index (fun site => fail.index.contains site) key with
    | .ret m temp =>
      let copy := (m.myArray.data temp).value
      if fail.copy then .uncaught m
      else
        match fail.add with
        | none => .done (m.setValue temp (copy + value))
        | some left =>
          let m := m.setValue temp left
          match fail.restore with
          | none => .caught (m.setValue temp copy)
          | some left => .uncaught (m.setValue temp left)
    | .notEnoughSpace m => .uncaught m
    | .fatal => .fatal

/-- the condition: a table that is doubled is requested as it is and not left half moved, and the old
value is put back -/
structure AggregateFine (fail : AggregateFail V) (m : PDBMap K V) (key : K) : Prop where
  canIndex : m.CanIndex (fun site => fail.index.contains site) key
  restore : m.count key ≠ 0 → fail.copy = false → fail.add ≠ none → fail.restore = none

instance (fail : AggregateFail V) (m : PDBMap K V) (key : K) [DecidableEq V] :
    Decidable (AggregateFine fail m key) :=
  decidable_of_iff (m.CanIndex (fun site => fail.index.contains site) key ∧
      (m.count key ≠ 0 → fail.copy = false → fail.add ≠ none → fail.restore = none))
    ⟨fun h => ⟨h.1, h.2⟩, fun h => ⟨h.canIndex, h.restore⟩⟩

variable [EquivBEq K] [LawfulHashable K] {m m' : PDBMap K V} {key : K} {fail : AggregateFail V}

/-- what the entries of a key add up to -/
def total (m : PDBMap K V) (k : K) : WithZero V := FiniteMap.keySum k m.iterate

theorem total_eq (m : PDBMap K V) (k : K) : m.total k = FiniteMap.keySum k m.entries := by
  rw [total, iterate_eq]

/-- `value` has been added to the entry of `key` -/
structure Added (m : PDBMap K V) (key : K) (value : V) (m' : PDBMap K V) : Prop where
  good : m'.Good
  total : ∀ k, m'.total k = m.total k + FiniteMap.single k (key, value)

/-- a new entry gets its value -/
theorem added_of_new {slot : Nat} (hk : ¬ m.myArray.Has key) (hg : m'.Good)
    (hp : m'.entries.Perm ((key, default) :: m.entries)) (hs : slot < m'.myArray.numSlots)
    (hdata : m'.myArray.data slot = ⟨Hasher.hash key, key, default⟩) (v : V) :
    (m'.setValue slot v).Good ∧ (m'.setValue slot v).entries.Perm ((key, v) :: m.entries) ∧
      (m'.setValue slot v).myArray.Used slot ∧
      (((m'.setValue slot v).myArray.data slot).key == key) = true := by
  have hused : m'.myArray.Used slot := by
    rw [PairArray.Used, hdata]
    exact PairArray.Hasher_hash_ne key
  have hkey : ((m'.myArray.data slot).key == key) = true := by
    rw [hdata]
    exact BEq.rfl
  obtain ⟨hg', he⟩ := setValue_spec hg hs hused hkey v
  obtain ⟨hsame, hsame'⟩ := PairArray.setValue_same m'.myArray slot v slot
  refine ⟨hg', ?_, ?_, ?_⟩
  · rw [he]
    refine (FiniteMap.assign_perm hp _ _).trans ?_
    rw [FiniteMap.assign_cons, if_pos BEq.rfl, FiniteMap.assign_of_not_has]
    exact fun hh => hk (PairArray.has_iff.mpr hh)
  · show ((m'.myArray.setValue slot v).data slot).hash ≠ UNUSED
    rw [hsame]
    exact hused
  · show (((m'.myArray.setValue slot v).data slot).key == key) = true
    rw [hsame']
    exact hkey

theorem total_perm (h : m.Good) (hp : m'.entries.Perm m.entries) (k : K) :
    m'.total k = m.total k := by
  rw [total_eq, total_eq]
  exact FiniteMap.keySum_perm hp (h.distinct.perm hp.symm) k

/-- a key that is not there -/
theorem aggregate_new (h : m.Good) (hk : ¬ m.myArray.Has key) (hf : AggregateFine fail m key)
    (value : V) :
    (∃ m', m.aggregate fail key value = .done m' ∧ Added m key value m') ∨
      ∃ m', m.aggregate fail key value = .caught m' ∧ ∀ k, m'.total k = m.total k := by
  classical
  have hcount : m.count key = 0 := by
    have := count_eq h key
    rwa [if_neg hk] at this
  obtain ⟨m₁, hidx, hg, hp⟩ | ⟨m₁, slot, hidx, hg, hp, hslot, hdata⟩ := index_cases h hk hf.canIndex
  · refine .inr ⟨m₁, ?_, total_perm h hp⟩
    simp only [aggregate, hcount, if_true, hidx]
  · cases hassign : fail.assign with
    | none =>
      obtain ⟨hg', hp', -⟩ := added_of_new hk hg hp hslot hdata value
      refine .inl ⟨m₁.setValue slot value, ?_, hg', fun k => ?_⟩
      · simp only [aggregate, hcount, if_true, hidx, hassign]
      · rw [total_eq, total_eq]
        exact FiniteMap.keySum_enter h.distinct hp' (fun hh => hk (PairArray.has_iff.mpr hh)) k
    | some left =>
      obtain ⟨hg', hp', hused, hkey⟩ := added_of_new hk hg hp hslot hdata left
      refine .inr ⟨(m₁.setValue slot left).setUnused key, ?_, fun k => ?_⟩
      · simp only [aggregate, hcount, if_true, hidx, hassign]
      · -- the entry that has come in goes out again
        have hout := PairArray.setUnused_spec hg'.sound hslot hused hkey
        exact total_perm h (FiniteMap.perm_of_cons hg'.distinct hout hp' hkey) k

/-- a key that is there -/
theorem aggregate_old (h : m.Good) (hk : m.myArray.Has key) (hf : AggregateFine fail m key)
    (value : V) :
    (∃ m', m.aggregate fail key value = .done m' ∧ Added m key value m') ∨
      ∃ m', (m.aggregate fail key value = .caught m' ∨ m.aggregate fail key value = .uncaught m') ∧
        ∀ k, m'.total k = m.total k := by
  classical
  have hcount : ¬ m.count key = 0 := by
    have := count_eq h key
    rw [if_pos hk] at this
    show ¬ m.myArray.count key = 0
    rw [this]
    exact Nat.one_ne_zero
  obtain ⟨slot, hidx, hslot, hused, hkey⟩ := index_hit (fun site => fail.index.contains site) h hk
  have hmem : ((m.myArray.data slot).key, (m.myArray.data slot).value) ∈ m.entries :=
    PairArray.mem_entries.mpr ⟨slot, hslot, hused, rfl⟩
  cases hcopy : fail.copy with
  | true =>
    refine .inr ⟨m, .inr ?_, fun _ => rfl⟩
    simp only [aggregate, hcount, if_false, hidx, hcopy, if_true]
  | false =>
    cases hadd : fail.add with
    | none =>
      obtain ⟨hg', he⟩ := setValue_spec h hslot hused hkey ((m.myArray.data slot).value + value)
      refine .inl ⟨m.setValue slot ((m.myArray.data slot).value + value), ?_, hg', fun k => ?_⟩
      · simp only [aggregate, hcount, if_false, hidx, hcopy, hadd, Bool.false_eq_true]
      · rw [total_eq, total_eq, he]
        exact FiniteMap.keySum_assign h.distinct hmem hkey value k
    | some left =>
      have hrestore : fail.restore = none := hf.restore hcount hcopy (by rw [hadd]; simp)
      refine .inr ⟨(m.setValue slot left).setValue slot (m.myArray.data slot).value, .inl ?_,
        fun k => ?_⟩
      · simp only [aggregate, hcount, if_false, hidx, hcopy, hadd, hrestore, Bool.false_eq_true]
      · -- the old value is written over what the failed assignment has left
        have hback : (m.setValue slot left).setValue slot (m.myArray.data slot).value = m :=
          congrArg PDBMap.mk (PairArray.setValue_back m.myArray slot left)
        rw [hback]

/-- **One value.** -/
theorem aggregate_spec (h : m.Good) (hf : AggregateFine fail m key) (value : V) :
    (∃ m', m.aggregate fail key value = .done m' ∧ Added m key value m') ∨
      ∃ m', (m.aggregate fail key value = .caught m' ∨ m.aggregate fail key value = .uncaught m') ∧
        ∀ k, m'.total k = m.total k := by
  by_cases hk : m.myArray.Has key
  · exact aggregate_old h hk hf value
  · obtain hdone | ⟨m', hfail, htotal⟩ := aggregate_new h hk hf value
    · exact .inl hdone
    · exact .inr ⟨m', .inl hfail, htotal⟩

end PDBMap
end Netsdb
