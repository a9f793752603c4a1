import Netsdb.Planning.AllOrNothing
import Mathlib.Data.Prod.Lex
import Mathlib.Algebra.Order.BigOperators.Group.List
import Mathlib.Algebra.Order.Group.Nat

/-!
# The loop of the dynamic planner ends (`QuerySchedulerServer.cc`, `TCAPAnalyzer::getBestSource`)

* `Costed`           what `getBestSource` knows of the sources that are put off;
* `planRound_cases`  a round that brings no stage drops a source, puts one off, or is stuck;
* `measure`          the nodes of the sources, the sources that are not put off, and those that are and
                     are still cheap; `measure_lt`: a round lowers it;
* `planLoop_ends`    the loop ends, when no round of it is stuck;
* `planLoop_stuck`   a round that is stuck, with no source put off, is stuck for good.
-/

set_option linter.unusedSectionVars false

namespace Netsdb
open TCAPAnalyzer AnalyzeArgs Machine

/-! ## Costs -/

theorem natCost_le {m n : Nat} : (m : WithTop Nat) ≤ (n : WithTop Nat) ↔ m ≤ n :=
  WithTop.coe_le_coe

theorem natCost_lt {m n : Nat} : (m : WithTop Nat) < (n : WithTop Nat) ↔ m < n :=
  WithTop.coe_lt_coe

/-- a number that is rounded at one of its lower bits keeps its half -/
theorem half_le_round {n m b : Nat} (hm : 0 < m) (hle : 2 * m ≤ n) : n / 2 ≤ (n / m + b) * m := by
  have hdiv := Nat.div_add_mod n m
  have hmod := Nat.mod_lt n hm
  have hmul : n / m * m ≤ (n / m + b) * m := Nat.mul_le_mul_right m (Nat.le_add_right _ _)
  rw [Nat.mul_comm m] at hdiv
  omega

theorem le_capped {k r cap : Nat} (h : k ≤ r) :
    (k : WithTop Nat) ≤ if r < cap then (r : WithTop Nat) else ⊤ := by
  by_cases hr : r < cap
  · rw [if_pos hr, natCost_le]
    exact h
  · rw [if_neg hr]
    exact le_top

theorem half_le_roundDouble (n : Nat) : ((n / 2 : Nat) : WithTop Nat) ≤ roundDouble n := by
  by_cases hn : n < 2 ^ 53
  · rw [roundDouble, if_pos hn, natCost_le]
    exact Nat.div_le_self n 2
  · rw [roundDouble, if_neg hn]
    have hne : n ≠ 0 := fun h0 => hn (h0 ▸ Nat.pow_pos (by decide))
    have hlog : 53 ≤ Nat.log 2 n := by
      by_contra hlt
      exact hn ((Nat.log_lt_iff_lt_pow Nat.one_lt_two hne).mp (by omega))
    refine le_capped (half_le_round (Nat.pow_pos (by decide)) ?_)
    -- the lowest bit that is kept is far below the highest
    have hpow : 2 ^ (Nat.log 2 n - 52) * 2 ≤ 2 ^ Nat.log 2 n := by
      rw [← pow_succ]
      exact Nat.pow_le_pow_right (by decide) (by omega)
    have := Nat.pow_log_le_self 2 hne
    omega

/-- a thousand times a cost is at least five hundred times the cost -/
theorem le_mulThousand {k : Nat} {c : WithTop Nat} (h : (k : WithTop Nat) ≤ c) :
    ((500 * k : Nat) : WithTop Nat) ≤ mulThousand c := by
  cases c with
  | top => exact le_top
  | coe n =>
    have hk : k ≤ n := WithTop.coe_le_coe.mp h
    have hhalf : 500 * k ≤ n * 1000 / 2 := by omega
    exact le_trans (natCost_le.mpr hhalf) (half_le_roundDouble (n * 1000))

theorem threshold_lt_dblMax : joinCostThreshold < dblMax := by
  unfold joinCostThreshold dblMax
  exact natCost_lt.mpr (by decide +kernel)

section
variable {s : TCAPAnalyzer} {stats : Statistics} {key : String}

theorem one_le_costOfSource : ((1 : Nat) : WithTop Nat) ≤ s.costOfSource stats key :=
  natCost_le.mpr (Nat.le_max_left _ _)

theorem le_nextPenalizedCost : ((500 : Nat) : WithTop Nat) ≤ s.nextPenalizedCost stats key := by
  unfold nextPenalizedCost
  refine le_mulThousand (k := 1) ?_
  split
  · split
    · next p _ hp =>
      cases p with
      | top => exact le_top
      | coe n => exact natCost_le.mpr (natCost_lt.mp hp)
    · exact one_le_costOfSource
  · exact one_le_costOfSource

/-- a source that has been asked for once is dear -/
theorem threshold_lt_nextPenalizedCost {p : WithTop Nat} (h : stats.penalizedCosts key = some p)
    (hp : ((500 : Nat) : WithTop Nat) ≤ p) : joinCostThreshold < s.nextPenalizedCost stats key := by
  have hpos : 0 < p := lt_of_lt_of_le (natCost_lt.mpr (by decide)) hp
  unfold nextPenalizedCost
  rw [h]
  dsimp only
  rw [if_pos hpos]
  exact lt_of_lt_of_le (natCost_lt.mpr (by decide)) (le_mulThousand hp)

theorem nextPenalizedCost_congr {stats' : Statistics}
    (hbytes : stats'.numBytes = stats.numBytes)
    (hcosts : stats'.penalizedCosts key = stats.penalizedCosts key) :
    s.nextPenalizedCost stats' key = s.nextPenalizedCost stats key := by
  unfold nextPenalizedCost costOfSource getCostOfSource
  rw [hbytes, hcosts]

end

/-! ## The choice -/

/-- a source that has been asked for while it was put off -/
def Asked (stats : Statistics) (key : String) : Prop :=
  ∃ p, ((500 : Nat) : WithTop Nat) ≤ p ∧ stats.penalizedCosts key = some p

/-- what is known when the sources `seen` have been considered -/
structure Costed (s : TCAPAnalyzer) (stats : Statistics) (seen : List String) (b : BestSource) :
    Prop where
  numBytes : b.stats.numBytes = stats.numBytes
  kept : ∀ key, b.stats.penalizedCosts key = stats.penalizedCosts key ∨ Asked b.stats key
  asked : ∀ key ∈ seen, key ∈ s.penalizedSourceSets → Asked b.stats key
  /-- a source that is cheap has been chosen, and was cheap before -/
  best : b.minCost ≤ joinCostThreshold → ∃ key,
    s.curSourceSetNames[b.bestIndexToReturn]? = some key ∧
      (key ∈ s.penalizedSourceSets → s.nextPenalizedCost stats key ≤ joinCostThreshold)
  index : b.bestIndexToReturn = 0 ∨ b.bestIndexToReturn < s.curSourceSetNames.length

section
variable {s : TCAPAnalyzer} {stats : Statistics} {seen : List String} {b : BestSource}

theorem Costed.considerSource (h : Costed s stats seen b) {key : String} {i : Nat}
    (hi : s.curSourceSetNames[i]? = some key) :
    Costed s stats (seen ++ [key]) (s.considerSource b key i) := by
  have hlt : i < s.curSourceSetNames.length := (List.getElem?_eq_some_iff.mp hi).1
  by_cases hpen : key ∈ s.penalizedSourceSets
  · -- its cost is asked for
    have hasked : Asked { b.stats with
        penalizedCosts := Function.update b.stats.penalizedCosts key
          (some (s.nextPenalizedCost b.stats key)) } key :=
      ⟨_, le_nextPenalizedCost, Function.update_self _ _ _⟩
    have hother : ∀ k, k ≠ key → Function.update b.stats.penalizedCosts key
        (some (s.nextPenalizedCost b.stats key)) k = b.stats.penalizedCosts k := fun k hk =>
      Function.update_of_ne hk _ _
    have hkept : ∀ k, Function.update b.stats.penalizedCosts key
          (some (s.nextPenalizedCost b.stats key)) k = stats.penalizedCosts k ∨
        Asked { b.stats with
          penalizedCosts := Function.update b.stats.penalizedCosts key
            (some (s.nextPenalizedCost b.stats key)) } k := by
      intro k
      by_cases hk : k = key
      · rw [hk]
        exact .inr hasked
      · obtain hs | ⟨p, hp, hs⟩ := h.kept k
        · exact .inl ((hother k hk).trans hs)
        · exact .inr ⟨p, hp, (hother k hk).trans hs⟩
    have hseen : ∀ k ∈ seen ++ [key], k ∈ s.penalizedSourceSets → Asked { b.stats with
        penalizedCosts := Function.update b.stats.penalizedCosts key
          (some (s.nextPenalizedCost b.stats key)) } k := by
      intro k hk hkp
      by_cases hkk : k = key
      · rw [hkk]
        exact hasked
      · obtain hk | hk := List.mem_append.mp hk
        · obtain ⟨p, hp, hs⟩ := h.asked k hk hkp
          exact ⟨p, hp, (hother k hkk).trans hs⟩
        · exact absurd (List.mem_singleton.mp hk) hkk
    unfold TCAPAnalyzer.considerSource
    rw [if_pos hpen]
    dsimp only
    split
    · refine ⟨h.numBytes, hkept, hseen, fun hmin => ⟨key, hi, fun _ => ?_⟩, .inr hlt⟩
      obtain hs | ⟨p, hp, hs⟩ := h.kept key
      · rw [← nextPenalizedCost_congr h.numBytes hs]
        exact hmin
      · exact absurd hmin (not_le_of_gt (threshold_lt_nextPenalizedCost hs hp))
    · exact ⟨h.numBytes, hkept, hseen, h.best, h.index⟩
  · have hseen : ∀ k ∈ seen ++ [key], k ∈ s.penalizedSourceSets → Asked b.stats k := by
      intro k hk hkp
      obtain hk | hk := List.mem_append.mp hk
      · exact h.asked k hk hkp
      · rw [List.mem_singleton.mp hk] at hkp
        exact absurd hkp hpen
    unfold TCAPAnalyzer.considerSource
    rw [if_neg hpen]
    dsimp only
    split
    · exact ⟨h.numBytes, h.kept, hseen, fun _ => ⟨key, hi, fun hk => absurd hk hpen⟩, .inr hlt⟩
    · exact ⟨h.numBytes, h.kept, hseen, h.best, h.index⟩

theorem Costed.foldl (l : List (String × Nat)) : ∀ (seen : List String) (b : BestSource),
    Costed s stats seen b → (∀ e ∈ l, s.curSourceSetNames[e.2]? = some e.1) →
    Costed s stats (seen ++ l.map (·.1)) (l.foldl (fun b e => s.considerSource b e.1 e.2) b) := by
  induction l with
  | nil =>
    intro seen b h _
    rw [List.map_nil, List.append_nil]
    exact h
  | cons e l ih =>
    intro seen b h hl
    have h' := ih _ _ (h.considerSource (hl e List.mem_cons_self)) fun e' he' =>
      hl e' (List.mem_cons_of_mem _ he')
    rw [List.append_assoc] at h'
    exact h'

variable (s stats) in
/-- **What `getBestSource` finds.** -/
theorem getBestSource_costed : Costed s stats s.curSourceSetNames (s.getBestSource stats) := by
  have hstart : Costed s stats []
      { stats, minCost := dblMax, exactSize := s.exactSizeOfCurSource, bestIndexToReturn := 0 } :=
    ⟨rfl, fun _ => .inl rfl, fun _ hk => absurd hk List.not_mem_nil,
      fun hmin => absurd hmin (not_le_of_gt threshold_lt_dblMax), .inl rfl⟩
  have h := Costed.foldl s.curSourceSetNames.zipIdx [] _ hstart fun e he =>
    List.mem_zipIdx_iff_getElem?.mp he
  rw [List.nil_append, List.zipIdx_map_fst] at h
  exact h

end
/-! ## One round -/

/-- the planner of a round, when its source has been chosen -/
def chosen (x : Statistics × TCAPAnalyzer) : TCAPAnalyzer :=
  x.2.chooseSource (x.2.getBestSource x.1)

/-- the round is spent on a join with several consumers, and no stage comes of it -/
def Stuck (q : Query) (x : Statistics × TCAPAnalyzer) : Prop :=
  ∃ set node l curNode e,
    (chosen x).curSourceSets (chosen x).curSourceSetName = some set ∧
    (chosen x).curSourceNodes (chosen x).curSourceSetName = some (node :: l) ∧
    (consumers q.plan node.outputName)[
      (chosen x).curProcessedConsumers (chosen x).curSourceSetName]? = some curNode ∧
    endOf q (chosen x) node set curNode = some e ∧ Refused q (chosen x) e ∧ e.emitted = false

/-- the source of the round is put off -/
structure PutOff (x y : Statistics × TCAPAnalyzer) : Prop where
  names : y.2.curSourceSetNames = x.2.curSourceSetNames
  sets : y.2.curSourceSets = x.2.curSourceSets
  nodes : y.2.curSourceNodes = x.2.curSourceNodes
  penalized : y.2.penalizedSourceSets =
    if (chosen x).curSourceSetName ∈ x.2.penalizedSourceSets then x.2.penalizedSourceSets
    else x.2.penalizedSourceSets ++ [(chosen x).curSourceSetName]
  cheap : (x.2.getBestSource x.1).minCost ≤ joinCostThreshold

section
variable {q : Query} {x y : Statistics × TCAPAnalyzer}

/-- the call for the source of a round brings stages, or the source is put off, or the round is stuck -/
theorem analyzeConsumer_round (hd : q.dynamicPlanningOrNot = true)
    {node curNode : AtomicComputation} {set : SetIdentifier} {r : Bool × TCAPAnalyzer}
    (hstuck : ∀ e, endOf q (chosen x) node set curNode = some e → Refused q (chosen x) e →
      e.emitted = true)
    (hr : analyzeConsumer q node set curNode (chosen x) = some r) :
    r.2.physicalPlanToOutput ≠ [] ∨
      ∀ stats, PutOff x (stats, r.2) := by
  have hne : ∀ {t : TCAPAnalyzer},
      (chosen x).physicalPlanToOutput.length < t.physicalPlanToOutput.length →
      t.physicalPlanToOutput ≠ [] := by
    intro t ht he
    rw [he] at ht
    exact Nat.not_lt_zero _ ht
  cases he : endOf q (chosen x) node set curNode with
  | none =>
    rw [analyzeConsumer_none he] at hr
    cases hr
  | some e =>
    obtain ⟨a, t, -, halong, href, hpost, hpush⟩ := analyzeConsumer_end hd he
    by_cases h₁ : Refused q (chosen x) e
    · left
      rw [href h₁] at hr
      rw [← Option.some.inj hr]
      show (a.materialize q t).physicalPlanToOutput ≠ []
      rw [materialize_plan]
      exact hne (halong.loud (hstuck e he h₁)).2.2
    · by_cases h₂ : Postponed q (chosen x) e
      · rw [hpost h₂] at hr
        rw [← Option.some.inj hr]
        cases hemitted : e.emitted with
        | true => exact .inl (hne (halong.loud hemitted).2.2)
        | false =>
          right
          intro stats
          obtain ⟨l, -, ht⟩ := halong.quiet hemitted
          refine ⟨?_, ?_, ?_, ?_, ?_⟩
          · show t.curSourceSetNames = _
            rw [ht]
            rfl
          · show t.curSourceSets = _
            rw [ht]
            rfl
          · show t.curSourceNodes = _
            rw [ht]
            rfl
          · show (if t.curSourceSetName ∈ t.penalizedSourceSets then t.penalizedSourceSets
              else t.penalizedSourceSets ++ [t.curSourceSetName]) = _
            rw [ht]
            rfl
          · exact of_decide_eq_true h₂.2.2.2
      · exact .inl (hne (hpush h₁ h₂ r hr).2)

/-- **A round that brings no stage** drops its source or puts it off, when it is not stuck. -/
theorem planRound_cases (hd : q.dynamicPlanningOrNot = true)
    (hstuck : ¬ Stuck q x) (hy : planRound q x = some y) (hy' : y.2.planning) :
    y.1 = (x.2.getBestSource x.1).stats ∧
      ((y.2 = (chosen x).removeSource (chosen x).curSourceSetName ∧
        ∃ node l, x.2.curSourceNodes (chosen x).curSourceSetName = some (node :: l)) ∨
      PutOff x y) := by
  obtain ⟨s', hs', rfl⟩ := Option.map_eq_some_iff.mp hy
  refine ⟨rfl, ?_⟩
  have hs' : (chosen x).planSource q (chosen x).curSourceSetName = some s' := hs'
  unfold planSource at hs'
  split at hs'
  · next set node l hset hnode =>
    obtain ⟨⟨b, u⟩, hu, rfl⟩ := Option.map_eq_some_iff.mp hs'
    unfold getNextStagesOptimized at hu
    -- a planner with stages does not go on
    have hplan : u.physicalPlanToOutput = [] := by
      by_contra hne
      have hy'' := hy'.1
      dsimp only at hy''
      rw [if_pos hne] at hy''
      exact hne hy''
    dsimp only at hy' ⊢
    rw [if_neg (not_not_intro hplan)]
    split at hu
    · next curNode hcur =>
      obtain ⟨r, hr, hru⟩ := Option.map_eq_some_iff.mp hu
      obtain ⟨rfl, rfl⟩ := Prod.mk.inj hru
      right
      rw [if_pos rfl]
      obtain hstages | hoff := analyzeConsumer_round hd (fun e he href => by
        by_contra hem
        exact hstuck ⟨set, node, l, curNode, e, hset, hnode, hcur, he, href,
          Bool.eq_false_iff.mpr hem⟩) hr
      · exact absurd hplan hstages
      · exact hoff _
    · obtain ⟨rfl, rfl⟩ := Prod.mk.inj (Option.some.inj hu)
      left
      rw [if_neg Bool.false_ne_true]
      exact ⟨rfl, node, l, hnode⟩
  · cases hs'

/-- the source of a round is one of the sources -/
theorem chosen_mem (hx : x.2.planning) :
    (chosen x).curSourceSetName ∈ x.2.curSourceSetNames := by
  show (x.2.curSourceSetNames[(x.2.getBestSource x.1).bestIndexToReturn]?).getD "" ∈ _
  have hlt : (x.2.getBestSource x.1).bestIndexToReturn < x.2.curSourceSetNames.length := by
    obtain h0 | hlt := (getBestSource_costed x.2 x.1).index
    · rw [h0]
      exact hx.2
    · exact hlt
  rw [List.getElem?_eq_getElem hlt]
  exact List.getElem_mem hlt

/-! ## The measure -/

/-- a source that is put off, and would still be cheap -/
def stillCheap (stats : Statistics) (s : TCAPAnalyzer) (key : String) : Bool :=
  decide (key ∈ s.penalizedSourceSets) &&
    decide (s.nextPenalizedCost stats key ≤ joinCostThreshold)

def measure (x : Statistics × TCAPAnalyzer) : Nat ×ₗ Nat ×ₗ Nat :=
  toLex ((x.2.curSourceSetNames.map fun n => 1 + ((x.2.curSourceNodes n).getD []).length).sum,
    toLex ((x.2.curSourceSetNames.filter fun n => decide (n ∉ x.2.penalizedSourceSets)).length,
      (x.2.curSourceSetNames.filter (stillCheap x.1 x.2)).length))

/-- a source that is dropped takes a node with it -/
theorem removeSource_sum {s : TCAPAnalyzer} {name : String} (hmem : name ∈ s.curSourceSetNames)
    {node : AtomicComputation} {l : List AtomicComputation}
    (hnode : s.curSourceNodes name = some (node :: l)) :
    ((s.removeSource name).curSourceSetNames.map fun n =>
        1 + (((s.removeSource name).curSourceNodes n).getD []).length).sum <
      (s.curSourceSetNames.map fun n => 1 + ((s.curSourceNodes n).getD []).length).sum := by
  unfold removeSource
  dsimp only
  rw [hnode]
  cases l with
  | cons node' l =>
    show (s.curSourceSetNames.map fun n => 1 + ((Function.update s.curSourceNodes name
      (some (node' :: l)) n).getD []).length).sum < _
    refine List.sum_lt_sum _ _ (fun n _ => ?_) ⟨name, hmem, ?_⟩
    · by_cases hn : n = name
      · rw [hn, Function.update_self, hnode]
        exact Nat.add_le_add_left (Nat.le_succ _) 1
      · rw [Function.update_of_ne hn]
    · rw [Function.update_self, hnode]
      exact Nat.add_lt_add_left (Nat.lt_succ_self _) 1
  | nil =>
    show ((s.curSourceSetNames.erase name).map fun n => 1 + ((Function.update s.curSourceNodes name
      none n).getD []).length).sum < _
    rw [← List.sum_map_erase (fun n => 1 + ((s.curSourceNodes n).getD []).length) hmem]
    have hle : ((s.curSourceSetNames.erase name).map fun n =>
        1 + ((Function.update s.curSourceNodes name none n).getD []).length).sum ≤
        ((s.curSourceSetNames.erase name).map fun n =>
          1 + ((s.curSourceNodes n).getD []).length).sum := by
      refine List.sum_le_sum fun n _ => ?_
      by_cases hn : n = name
      · rw [hn, Function.update_self]
        exact Nat.add_le_add_left (Nat.zero_le _) 1
      · rw [Function.update_of_ne hn]
    omega

/-- a source that is put off for the first time is one less that is not -/
theorem filter_not_mem_lt {names pen : List String} {name : String} (hmem : name ∈ names)
    (hpen : name ∉ pen) :
    (names.filter fun n => decide (n ∉ pen ++ [name])).length <
      (names.filter fun n => decide (n ∉ pen)).length := by
  rw [← List.countP_eq_length_filter, ← List.countP_eq_length_filter]
  induction names with
  | nil => cases hmem
  | cons n names ih =>
    have hle : names.countP (fun n => decide (n ∉ pen ++ [name])) ≤
        names.countP (fun n => decide (n ∉ pen)) := by
      refine List.countP_mono_left fun k _ hk => ?_
      have hk := of_decide_eq_true hk
      exact decide_eq_true fun hkp => hk (List.mem_append_left _ hkp)
    rw [List.countP_cons, List.countP_cons]
    by_cases hn : n = name
    · have h₁ : decide (n ∉ pen ++ [name]) = false :=
        decide_eq_false (not_not_intro (List.mem_append_right _ (List.mem_singleton.mpr hn)))
      have h₂ : decide (n ∉ pen) = true := decide_eq_true (by rw [hn]; exact hpen)
      rw [h₁, h₂]
      exact Nat.lt_succ_of_le hle
    · have h := ih ((List.mem_cons.mp hmem).resolve_left fun he => hn he.symm)
      have heq : decide (n ∉ pen ++ [name]) = decide (n ∉ pen) := by
        refine decide_eq_decide.mpr ⟨fun hk hkp => hk (List.mem_append_left _ hkp), fun hk hkp => ?_⟩
        obtain hkp | hkp := List.mem_append.mp hkp
        · exact hk hkp
        · exact hn (List.mem_singleton.mp hkp)
      rw [heq]
      exact Nat.add_lt_add_right h _

/-- **A round lowers the measure.** -/
theorem measure_lt (hd : q.dynamicPlanningOrNot = true) (hx : x.2.planning)
    (hstuck : ¬ Stuck q x) (hy : planRound q x = some y) (hy' : y.2.planning) :
    measure y < measure x := by
  have hmem := chosen_mem (x := x) hx
  have hcosted := getBestSource_costed x.2 x.1
  obtain ⟨hstats, ⟨hremoved, node, l, hnode⟩ | hoff⟩ := planRound_cases hd hstuck hy hy'
  · refine Prod.Lex.toLex_lt_toLex.mpr (.inl ?_)
    rw [hremoved]
    exact removeSource_sum (s := chosen x) hmem hnode
  · have hsum : (y.2.curSourceSetNames.map fun n => 1 + ((y.2.curSourceNodes n).getD []).length).sum =
        (x.2.curSourceSetNames.map fun n => 1 + ((x.2.curSourceNodes n).getD []).length).sum := by
      rw [hoff.names, hoff.nodes]
    refine Prod.Lex.toLex_lt_toLex.mpr (.inr ⟨hsum, Prod.Lex.toLex_lt_toLex.mpr ?_⟩)
    by_cases hpen : (chosen x).curSourceSetName ∈ x.2.penalizedSourceSets
    · right
      have hsame := hoff.penalized
      rw [if_pos hpen] at hsame
      refine ⟨by rw [hoff.names, hsame], ?_⟩
      -- no source that has been asked for is cheap
      have hnone : y.2.curSourceSetNames.filter (stillCheap y.1 y.2) = [] := by
        refine List.filter_eq_nil_iff.mpr fun n hn hcheap => ?_
        obtain ⟨hnpen, hle⟩ := Bool.and_eq_true_iff.mp hcheap
        have hnpen := of_decide_eq_true hnpen
        rw [hoff.names] at hn
        rw [hsame] at hnpen
        obtain ⟨p, hp, hs⟩ := hcosted.asked n hn hnpen
        rw [← hstats] at hs
        exact absurd (of_decide_eq_true hle) (not_le_of_gt (threshold_lt_nextPenalizedCost hs hp))
      -- and the one that is put off was
      obtain ⟨key, hkey, hcheap⟩ := hcosted.best hoff.cheap
      have hname : (chosen x).curSourceSetName = key := by
        show (x.2.curSourceSetNames[(x.2.getBestSource x.1).bestIndexToReturn]?).getD "" = key
        rw [hkey]
        rfl
      have hcheap : stillCheap x.1 x.2 (chosen x).curSourceSetName = true := by
        rw [hname] at hpen ⊢
        exact Bool.and_eq_true_iff.mpr ⟨decide_eq_true hpen, decide_eq_true (hcheap hpen)⟩
      rw [hnone]
      exact List.length_pos_of_mem (List.mem_filter.mpr ⟨hmem, hcheap⟩)
    · left
      have hmore := hoff.penalized
      rw [if_neg hpen] at hmore
      rw [hoff.names, hmore]
      exact filter_not_mem_lt hmem hpen

/-! ## The loop -/

/-- **The loop ends**, when no round of it is stuck. -/
theorem planLoop_ends (hd : q.dynamicPlanningOrNot = true) (x : Statistics × TCAPAnalyzer)
    (hstuck : ∀ n y, planLoop q n x = some y → y.2.planning → ¬ Stuck q y) :
    ∃ n, ∀ y, planLoop q n x = some y → ¬ y.2.planning := by
  induction hm : measure x using WellFoundedLT.induction generalizing x with
  | ind m ih =>
    by_cases hx : x.2.planning
    · have hstep : ∀ n, planLoop q (n + 1) x = (planRound q x).bind (planLoop q n) := fun n =>
        if_pos hx
      cases hr : planRound q x with
      | none =>
        refine ⟨1, fun y hy => ?_⟩
        rw [hstep, hr] at hy
        cases hy
      | some y =>
        by_cases hy : y.2.planning
        · have hlt : measure y < m := by
            rw [← hm]
            exact measure_lt hd hx (hstuck 0 x rfl hx) hr hy
          obtain ⟨n, hn⟩ := ih _ hlt y (fun n z hz => hstuck (n + 1) z (by
            rw [hstep, hr]
            exact hz)) rfl
          refine ⟨n + 1, fun z hz => hn z ?_⟩
          rw [hstep, hr] at hz
          exact hz
        · refine ⟨1, fun z hz => ?_⟩
          rw [hstep, hr] at hz
          rw [← Option.some.inj hz]
          exact hy
    · refine ⟨0, fun y hy => ?_⟩
      rw [← Option.some.inj hy]
      exact hx

end

/-! ## A round that is stuck -/

section
variable {q : Query} {s s' : TCAPAnalyzer} {x : Statistics × TCAPAnalyzer}

/-- the way of a pipeline depends on the plan, the joins and the computations only -/
theorem walk_congr (hc : s'.computations = s.computations) (ht : s'.traversed = s.traversed)
    (hp : s'.partitioningLHS = s.partitioningLHS) (curSource : AtomicComputation)
    (set : SetIdentifier) (fuel : Nat) : ∀ node isProbing emitted,
    walk q s' curSource set fuel node isProbing emitted =
      walk q s curSource set fuel node isProbing emitted := by
  have hcut : ∀ node, cutsProbe q s' curSource set node = cutsProbe q s curSource set node := by
    intro node
    unfold cutsProbe
    rw [hc, hp]
  induction fuel with
  | zero =>
    intro _ _ _
    rfl
  | succ fuel ih =>
    intro node isProbing emitted
    unfold walk
    rw [hc, ht, hcut]
    simp only [ih]

/-- as far as the choice goes, the two are the same -/
structure SameChoice (b b' : BestSource) : Prop where
  stats : b'.stats = b.stats
  minCost : b'.minCost = b.minCost
  bestIndexToReturn : b'.bestIndexToReturn = b.bestIndexToReturn

/-- with no source put off, a source has the cost of its set -/
theorem considerSource_plain (hpen : s.penalizedSourceSets = []) (b : BestSource) (key : String)
    (i : Nat) : s.considerSource b key i =
      if s.costOfSource b.stats key < b.minCost then
        { stats := b.stats, minCost := s.costOfSource b.stats key
          exactSize := s.getCostOfSource b.stats key, bestIndexToReturn := i }
      else b := by
  unfold considerSource
  rw [if_neg (by rw [hpen]; exact List.not_mem_nil)]

theorem getBestSource_congr (hnames : s'.curSourceSetNames = s.curSourceSetNames)
    (hsets : s'.curSourceSets = s.curSourceSets) (hpen : s.penalizedSourceSets = [])
    (hpen' : s'.penalizedSourceSets = []) (stats : Statistics) :
    SameChoice (s.getBestSource stats) (s'.getBestSource stats) ∧
      (s.getBestSource stats).stats = stats := by
  have hcost : ∀ key, s'.costOfSource stats key = s.costOfSource stats key := by
    intro key
    unfold costOfSource getCostOfSource
    rw [hsets]
  have key : ∀ (l : List (String × Nat)) (b b' : BestSource), SameChoice b b' → b.stats = stats →
      SameChoice (l.foldl (fun b e => s.considerSource b e.1 e.2) b)
          (l.foldl (fun b e => s'.considerSource b e.1 e.2) b') ∧
        (l.foldl (fun b e => s.considerSource b e.1 e.2) b).stats = stats := by
    intro l
    induction l with
    | nil => exact fun b b' h hb => ⟨h, hb⟩
    | cons e l ih =>
      intro b b' h hb
      rw [List.foldl_cons, List.foldl_cons, considerSource_plain hpen, considerSource_plain hpen',
        h.stats, h.minCost, hb, hcost]
      split
      · exact ih _ _ ⟨rfl, rfl, rfl⟩ rfl
      · exact ih _ _ h hb
  unfold getBestSource
  rw [hnames]
  exact key _ _ _ ⟨rfl, rfl, rfl⟩ rfl

/-- a join keeps its computation when its output is to be materialized -/
theorem materialize_computations {a : AnalyzeArgs} (h : (a.myComputation s).type = .joinComp) :
    (a.materialize q s).computations = s.computations := by
  unfold materialize
  split
  · rfl
  · show Function.update s.computations a.mySpecifier
      ((s.computations a.mySpecifier).setOutput q.jobId a.curNode.outputName) = _
    have hsame : (s.computations a.mySpecifier).setOutput q.jobId a.curNode.outputName =
        s.computations a.mySpecifier := by
      have hj : (s.computations a.mySpecifier).type = .joinComp := h
      unfold Computation.setOutput
      rw [hj]
    rw [hsame, Function.update_eq_self]

/-- a stuck round comes again, when no source is put off -/
theorem planRound_stuck (hd : q.dynamicPlanningOrNot = true) (hx : x.2.planning)
    (hpen : x.2.penalizedSourceSets = []) (hstuck : Stuck q x) :
    ∃ y, planRound q x = some y ∧ y.2.planning ∧ y.2.penalizedSourceSets = [] ∧ Stuck q y := by
  obtain ⟨set, node, l, curNode, e, hset, hnode, hcur, he, href, hemitted⟩ := hstuck
  obtain ⟨a, t, hanode, halong, hres, -, -⟩ := analyzeConsumer_end hd he
  obtain ⟨noted, -, ht⟩ := halong.quiet hemitted
  have htype : (a.myComputation t).type = .joinComp := by
    unfold AnalyzeArgs.myComputation AnalyzeArgs.mySpecifier
    rw [hanode, halong.type]
    exact href.2
  -- nothing of what the choice and the way depend on is changed
  have hmat : (a.materialize q t).physicalPlanToOutput = t.physicalPlanToOutput ∧
      (a.materialize q t).curSourceSetNames = t.curSourceSetNames ∧
      (a.materialize q t).curSourceSets = t.curSourceSets ∧
      (a.materialize q t).curSourceNodes = t.curSourceNodes ∧
      (a.materialize q t).curProcessedConsumers = t.curProcessedConsumers ∧
      (a.materialize q t).penalizedSourceSets = t.penalizedSourceSets ∧
      (a.materialize q t).traversed = t.traversed ∧
      (a.materialize q t).partitioningLHS = t.partitioningLHS := by
    unfold materialize
    split
    · exact ⟨rfl, rfl, rfl, rfl, rfl, rfl, rfl, rfl⟩
    · exact ⟨rfl, rfl, rfl, rfl, rfl, rfl, rfl, rfl⟩
  obtain ⟨m₁, m₂, m₃, m₄, m₅, m₆, m₇, m₈⟩ := hmat
  have hplan : (a.materialize q t).physicalPlanToOutput = [] := by
    rw [m₁, ht]
    exact hx.1
  have hnames : (a.materialize q t).curSourceSetNames = x.2.curSourceSetNames := by
    rw [m₂, ht]
    rfl
  have hsets : (a.materialize q t).curSourceSets = x.2.curSourceSets := by
    rw [m₃, ht]
    rfl
  have hnodes : (a.materialize q t).curSourceNodes = x.2.curSourceNodes := by
    rw [m₄, ht]
    rfl
  have hcount : (a.materialize q t).curProcessedConsumers = x.2.curProcessedConsumers := by
    rw [m₅, ht]
    rfl
  have hpen' : (a.materialize q t).penalizedSourceSets = [] := by
    rw [m₆, ht]
    exact hpen
  obtain ⟨hsame, hstats⟩ := getBestSource_congr hnames hsets hpen hpen' x.1
  have hround : planRound q x = some (x.1, a.materialize q t) := by
    show ((chosen x).planSource q (chosen x).curSourceSetName).map
      (fun s => ((x.2.getBestSource x.1).stats, s)) = _
    unfold planSource
    rw [hset, hnode]
    dsimp only
    unfold getNextStagesOptimized
    rw [hcur]
    dsimp only
    rw [hres href, hstats]
    simp only [Option.map_some]
    rw [if_neg (not_not_intro hplan), if_pos trivial]
  have hname : (chosen (x.1, a.materialize q t)).curSourceSetName =
      (chosen x).curSourceSetName := by
    show ((a.materialize q t).curSourceSetNames[
      ((a.materialize q t).getBestSource x.1).bestIndexToReturn]?).getD "" =
      (x.2.curSourceSetNames[(x.2.getBestSource x.1).bestIndexToReturn]?).getD ""
    rw [hnames, hsame.bestIndexToReturn]
  have hcomp : (chosen (x.1, a.materialize q t)).computations = (chosen x).computations := by
    show (a.materialize q t).computations = _
    rw [materialize_computations htype, ht]
  refine ⟨_, hround, ⟨hplan, ?_⟩, hpen', set, node, l, curNode, e, ?_, ?_, ?_, ?_, ?_, hemitted⟩
  · show 0 < (a.materialize q t).curSourceSetNames.length
    rw [hnames]
    exact hx.2
  · rw [hname]
    show (a.materialize q t).curSourceSets _ = _
    rw [hsets]
    exact hset
  · rw [hname]
    show (a.materialize q t).curSourceNodes _ = _
    rw [hnodes]
    exact hnode
  · rw [hname]
    show (consumers q.plan node.outputName)[(a.materialize q t).curProcessedConsumers _]? = _
    rw [hcount]
    exact hcur
  · rw [← he]
    refine walk_congr hcomp ?_ ?_ node set _ _ _ _
    · show (a.materialize q t).traversed = _
      rw [m₇, ht]
    · show (a.materialize q t).partitioningLHS = _
      rw [m₈, ht]
  · unfold Refused
    rw [hcomp]
    exact href

/-- **A stuck round is stuck for good**, when no source is put off. -/
theorem planLoop_stuck (hd : q.dynamicPlanningOrNot = true) (n : Nat) :
    ∀ x : Statistics × TCAPAnalyzer, x.2.planning → x.2.penalizedSourceSets = [] → Stuck q x →
    ∃ y, planLoop q n x = some y ∧ y.2.planning := by
  induction n with
  | zero => exact fun x hx _ _ => ⟨x, rfl, hx⟩
  | succ n ih =>
    intro x hx hpen hstuck
    obtain ⟨y, hy, hy', hpen', hstuck'⟩ := planRound_stuck hd hx hpen hstuck
    obtain ⟨z, hz, hz'⟩ := ih y hy' hpen' hstuck'
    refine ⟨z, ?_, hz'⟩
    show (if x.2.planning then (planRound q x).bind (planLoop q n) else some x) = _
    rw [if_pos hx, hy]
    exact hz

end
/-! ## A join with two consumers -/

def sharedJoinPlan : List AtomicComputation :=
  [⟨.scan, "a", "A", "", ""⟩, ⟨.scan, "b", "B", "", ""⟩, ⟨.joinSets, "j", "J", "A", "B"⟩,
    ⟨.writeSet, "v", "V", "J", ""⟩, ⟨.writeSet, "w", "W", "J", ""⟩]

theorem sharedJoinPlan_acyclic : Acyclic sharedJoinPlan := by
  refine ⟨fun n => if n = "J" then 1 else if n = "V" ∨ n = "W" then 2 else 0, fun n => ?_,
    by decide +kernel⟩
  show (if n = "J" then 1 else if n = "V" ∨ n = "W" then 2 else 0) ≤ 5
  split
  · decide
  · split
    · decide
    · decide

def sharedJoinComputations (c : String) : Computation :=
  if c = "j" then Computation.ofType .joinComp ""
  else Computation.ofType (if c = "v" ∨ c = "w" then .writeUserSet else .scanUserSet) c

def sharedJoinQuery : Query :=
  { leftDeepQuery true with plan := sharedJoinPlan }

def noStatistics : Statistics := { numBytes := fun _ => 0, penalizedCosts := fun _ => none }

/-- the first round of the join of three sets brings stages -/
theorem planLoop_leftDeep : ∃ s₀, create (leftDeepQuery true) leftDeepComputations none 0 = some s₀ ∧
    ∃ n, ∀ y, planLoop (leftDeepQuery true) n (noStatistics, s₀) = some y → ¬ y.2.planning := by
  have hrun : (create (leftDeepQuery true) leftDeepComputations none 0).map (fun s =>
      (decide s.planning, (planRound (leftDeepQuery true) (noStatistics, s)).map fun y =>
        decide y.2.planning)) = some (true, some false) := by
    decide +kernel
  obtain ⟨s₀, h₀, hobs⟩ := Option.map_eq_some_iff.mp hrun
  obtain ⟨hplan, hobs⟩ := Prod.mk.inj hobs
  obtain ⟨y₁, hy₁, hdone⟩ := Option.map_eq_some_iff.mp hobs
  have hplan := of_decide_eq_true hplan
  have hdone := of_decide_eq_false hdone
  have hloop : ∀ n, planLoop (leftDeepQuery true) (n + 1) (noStatistics, s₀) = some y₁ := by
    intro n
    show (if s₀.planning then (planRound (leftDeepQuery true) (noStatistics, s₀)).bind
      (planLoop (leftDeepQuery true) n) else _) = _
    rw [if_pos hplan, hy₁]
    cases n with
    | zero => rfl
    | succ n => exact if_neg hdone
  refine ⟨s₀, h₀, planLoop_ends rfl (noStatistics, s₀) fun n y hy hp hstuck => ?_⟩
  cases n with
  | succ n =>
    rw [hloop] at hy
    rw [← Option.some.inj hy] at hp
    exact hdone hp
  | zero =>
    obtain rfl := Option.some.inj hy
    -- a stuck round has no stages, and this one has
    obtain ⟨z, hz, hz', -⟩ := planRound_stuck rfl hp (by
      have hpen : (create (leftDeepQuery true) leftDeepComputations none 0).map
        (fun s => s.penalizedSourceSets) = some [] := by decide +kernel
      rw [h₀] at hpen
      exact Option.some.inj hpen) hstuck
    rw [hy₁] at hz
    rw [← Option.some.inj hz] at hz'
    exact hdone hz'

/-- **The loop does not end for a join with two consumers.** -/
theorem planLoop_not_always_ends : ¬ ∀ (q : Query) (computations : String → Computation)
    (cost : Option (WithTop Nat)) (size : Nat) (s₀ : TCAPAnalyzer)
    (x : List AbstractJobStage × TCAPAnalyzer) (stats : Statistics), Acyclic q.plan →
    q.dynamicPlanningOrNot = true → create q computations cost size = some s₀ →
    Reach (planStep q) (fun _ _ => True) ([], s₀) x →
    ∃ n, ∀ y, planLoop q n (stats, x.2) = some y → ¬ y.2.planning := by
  intro hall
  let a : AtomicComputation := ⟨.scan, "a", "A", "", ""⟩
  let j : AtomicComputation := ⟨.joinSets, "j", "J", "A", "B"⟩
  have hrun : (create sharedJoinQuery sharedJoinComputations none 0).map (fun s =>
      let t := chosen (noStatistics, s)
      (decide (s.planning ∧ s.penalizedSourceSets = [] ∧
        t.curSourceSets t.curSourceSetName = some { database := "db", setName := "a" } ∧
        t.curSourceNodes t.curSourceSetName = some [a] ∧
        t.curProcessedConsumers t.curSourceSetName = 0 ∧
        (t.computations "j").type = .joinComp),
        (endOf sharedJoinQuery t a { database := "db", setName := "a" } j).map fun e =>
          (e.node, e.emitted))) = some (true, some (j, false)) := by
    decide +kernel
  obtain ⟨s₀, h₀, hobs⟩ := Option.map_eq_some_iff.mp hrun
  obtain ⟨hobs, he⟩ := Prod.mk.inj hobs
  obtain ⟨hplan, hpen, hset, hnode, hcount, htype⟩ := of_decide_eq_true hobs
  obtain ⟨e, he, hej⟩ := Option.map_eq_some_iff.mp he
  obtain ⟨hej, hemitted⟩ := Prod.mk.inj hej
  have hstuck : Stuck sharedJoinQuery (noStatistics, s₀) := by
    refine ⟨_, a, [], j, e, hset, hnode, ?_, he, ⟨?_, ?_⟩, hemitted⟩
    · rw [hcount]
      decide +kernel
    · rw [hej]
      decide +kernel
    · rw [hej]
      exact htype
  obtain ⟨n, hn⟩ := hall _ _ _ _ s₀ ([], s₀) noStatistics sharedJoinPlan_acyclic rfl h₀ .refl
  obtain ⟨y, hy, hy'⟩ := planLoop_stuck rfl n (noStatistics, s₀) hplan hpen hstuck
  exact hn y hy hy'

end Netsdb
