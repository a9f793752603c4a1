import Netsdb.Planning.Walk
import Netsdb.Lib.Reach

/-!
# What a call that returns `false` leaves behind (`TCAPAnalyzer::analyze`)

* `Unchanged`       the planner is as before, but for the penalty of its source;
* `LeavesBehind`    the ends of a pipeline at which this fails;
* `unchanged_iff`   it fails only there: a join that is put off, whose pipeline has noted the joins to
                    be probed, or has pushed a stage; and a join with several consumers that has passed
                    a join, or whose output has been given a set.
-/

set_option linter.unusedSectionVars false

namespace Netsdb
open TCAPAnalyzer AnalyzeArgs Machine

/-- the list of tuple sets is a variable of the caller -/
structure Unchanged (s s' : TCAPAnalyzer) : Prop where
  state : s' = { s with
    penalizedSourceSets := s'.penalizedSourceSets, buildTheseTupleSets := s'.buildTheseTupleSets }
  penalty : s'.penalizedSourceSets = s.penalizedSourceSets ∨
    s'.penalizedSourceSets = s.penalizedSourceSets ++ [s.curSourceSetName]

/-- the ends at which a call returns `false` and leaves something behind -/
def LeavesBehind (q : Query) (s : TCAPAnalyzer) (e : PipelineEnd) : Prop :=
  Postponed q s e ∨ (Refused q s e ∧
    (e.isProbing = true ∨ (s.computations e.node.computationName).materializeOutput = false))

instance (q : Query) (s : TCAPAnalyzer) (e : PipelineEnd) : Decidable (LeavesBehind q s e) :=
  inferInstanceAs (Decidable (_ ∨ _))

section
variable {q : Query} {s t s' : TCAPAnalyzer} {isProbing emitted : Bool}

/-- a pipeline that has passed a join has noted it, or has pushed a stage -/
theorem Along.not_unchanged (h : Along s t true emitted) (hid : s'.jobStageId = t.jobStageId)
    (hout : s'.outputForJoinSets = t.outputForJoinSets) : ¬ Unchanged s s' := by
  intro hu
  have hid' : s'.jobStageId = s.jobStageId := by rw [hu.state]
  have hout' : s'.outputForJoinSets = s.outputForJoinSets := by rw [hu.state]
  cases emitted with
  | true =>
    have := (h.loud rfl).2.1
    omega
  | false =>
    obtain ⟨l, hl, ht⟩ := h.quiet rfl
    have hne : l ≠ [] := fun he => Bool.noConfusion (hl.mp he)
    have htout : t.outputForJoinSets = s.outputForJoinSets ++ l := by rw [ht]
    rw [hout, htout] at hout'
    exact hne (List.append_right_eq_self.mp hout')

/-- a pipeline that has passed no join has changed nothing -/
theorem Along.eq_start (h : Along s t false emitted) :
    t = { s with buildTheseTupleSets := t.buildTheseTupleSets } := by
  cases emitted with
  | true => exact Bool.noConfusion (h.loud rfl).1
  | false =>
    obtain ⟨l, hl, ht⟩ := h.quiet rfl
    rw [hl.mpr rfl, List.append_nil] at ht
    exact ht

theorem penalize_kept (t : TCAPAnalyzer) :
    (AnalyzeArgs.penalize t).jobStageId = t.jobStageId ∧
      (AnalyzeArgs.penalize t).outputForJoinSets = t.outputForJoinSets :=
  ⟨rfl, rfl⟩

theorem materialize_kept (a : AnalyzeArgs) (t : TCAPAnalyzer) :
    (a.materialize q t).jobStageId = t.jobStageId ∧
      (a.materialize q t).outputForJoinSets = t.outputForJoinSets := by
  unfold materialize
  split
  · exact ⟨rfl, rfl⟩
  · exact ⟨rfl, rfl⟩

/-- an output that is not to be materialized is given a set -/
theorem materialize_sets {a : AnalyzeArgs} (h : (a.myComputation t).materializeOutput = false) :
    (a.materialize q t).interGlobalSets.length = t.interGlobalSets.length + 1 := by
  unfold materialize
  rw [if_neg (by rw [h]; exact Bool.false_ne_true)]
  show (t.interGlobalSets ++ [_]).length = _
  rw [List.length_append, List.length_singleton]

variable {curSource curNode : AtomicComputation} {set : SetIdentifier}

/-- **A call that returns `false` leaves the planner as it was** exactly when its pipeline does not end
where something is left behind. -/
theorem unchanged_iff (hd : q.dynamicPlanningOrNot = true) :
    (∀ s', analyzeConsumer q curSource set curNode s = some (false, s') → Unchanged s s') ↔
      ∀ e, endOf q s curSource set curNode = some e → ¬ LeavesBehind q s e := by
  constructor
  · intro hall e he hleft
    obtain ⟨a, t, hnode, halong, href, hpost, -⟩ := analyzeConsumer_end hd he
    obtain hp | ⟨hr, hwhy⟩ := hleft
    · have hprobing : e.isProbing = true := hp.2.2.1
      rw [hprobing] at halong
      exact halong.not_unchanged (penalize_kept t).1 (penalize_kept t).2 (hall _ (hpost hp))
    · have hu := hall _ (href hr)
      cases hprobing : e.isProbing with
      | true =>
        rw [hprobing] at halong
        exact halong.not_unchanged (materialize_kept a t).1 (materialize_kept a t).2 hu
      | false =>
        have hm : (s.computations e.node.computationName).materializeOutput = false := by
          obtain h | h := hwhy
          · rw [hprobing] at h
            cases h
          · exact h
        have hm' : (a.myComputation t).materializeOutput = false := by
          unfold AnalyzeArgs.myComputation AnalyzeArgs.mySpecifier
          rw [halong.materializeOutput, hnode]
          exact hm
        rw [hprobing] at halong
        have hsets : t.interGlobalSets = s.interGlobalSets := by rw [halong.eq_start]
        have hsame : (a.materialize q t).interGlobalSets = s.interGlobalSets := by rw [hu.state]
        have hmore := materialize_sets (q := q) hm'
        rw [hsame, hsets] at hmore
        omega
  · intro hall s' hs'
    cases he : endOf q s curSource set curNode with
    | none =>
      rw [analyzeConsumer_none he] at hs'
      cases hs'
    | some e =>
      obtain ⟨a, t, hnode, halong, href, hpost, hpush⟩ := analyzeConsumer_end hd he
      have hno : ¬ LeavesBehind q s e := hall e he
      have hpost' : ¬ Postponed q s e := fun hp => hno (.inl hp)
      by_cases hr : Refused q s e
      · have hprobing : e.isProbing = false := by
          cases hprobing : e.isProbing with
          | true => exact absurd (.inr ⟨hr, .inl hprobing⟩) hno
          | false => rfl
        have hm : (s.computations e.node.computationName).materializeOutput = true := by
          cases hm : (s.computations e.node.computationName).materializeOutput with
          | true => rfl
          | false => exact absurd (.inr ⟨hr, .inr hm⟩) hno
        have hm' : (a.myComputation t).materializeOutput = true := by
          unfold AnalyzeArgs.myComputation AnalyzeArgs.mySpecifier
          rw [halong.materializeOutput, hnode]
          exact hm
        rw [hprobing] at halong
        have hs : s' = t := by
          rw [href hr] at hs'
          rw [← (Prod.mk.inj (Option.some.inj hs')).2]
          exact if_pos hm'
        rw [hs]
        refine ⟨?_, .inl ?_⟩
        · rw [halong.eq_start]
        · rw [halong.eq_start]
      · exact absurd (hpush hr hpost' _ hs').1 Bool.false_ne_true

end

/-! ## A join of three sets -/

def leftDeepPlan : List AtomicComputation :=
  [⟨.scan, "a", "A", "", ""⟩, ⟨.scan, "b", "B", "", ""⟩, ⟨.scan, "c", "C", "", ""⟩,
    ⟨.joinSets, "j1", "J1", "A", "B"⟩, ⟨.joinSets, "j2", "J2", "J1", "C"⟩,
    ⟨.writeSet, "w", "W", "J2", ""⟩]

theorem leftDeepPlan_acyclic : Acyclic leftDeepPlan := by
  refine ⟨fun n => if n = "W" then 3 else if n = "J2" then 2 else if n = "J1" then 1 else 0,
    fun n => ?_, by decide +kernel⟩
  show (if n = "W" then 3 else if n = "J2" then 2 else if n = "J1" then 1 else 0) ≤ 6
  split
  · decide
  · split
    · decide
    · split
      · decide
      · decide

def leftDeepComputations (c : String) : Computation :=
  if c = "j1" ∨ c = "j2" then Computation.ofType .joinComp ""
  else Computation.ofType (if c = "w" then .writeUserSet else .scanUserSet) c

def leftDeepQuery (dynamic : Bool) : Query :=
  { jobId := "job", plan := leftDeepPlan, pageSize := 1, shufflePageSize := 1
    broadcastPageSize := 1, numNodesInCluster := 1, dynamicPlanningOrNot := dynamic
    matchSourceWithQuery := fun _ _ _ => (false, "", "") }

/-- the first source builds a hash table, and the call is `true` -/
theorem unchanged_leftDeep :
    ∃ s, create (leftDeepQuery true) leftDeepComputations none 0 = some s ∧
      ∀ s', analyzeConsumer (leftDeepQuery true) ⟨.scan, "a", "A", "", ""⟩
          { database := "db", setName := "a" } ⟨.joinSets, "j1", "J1", "A", "B"⟩ s =
        some (false, s') → Unchanged s s' := by
  have hrun : (create (leftDeepQuery true) leftDeepComputations none 0).map (fun s =>
      (endOf (leftDeepQuery true) s ⟨.scan, "a", "A", "", ""⟩
        { database := "db", setName := "a" } ⟨.joinSets, "j1", "J1", "A", "B"⟩).all fun e =>
        !decide (LeavesBehind (leftDeepQuery true) s e)) = some true := by
    decide +kernel
  obtain ⟨s, hs, hobs⟩ := Option.map_eq_some_iff.mp hrun
  refine ⟨s, hs, (unchanged_iff rfl).mpr fun e he => ?_⟩
  rw [he] at hobs
  exact of_decide_eq_false (Bool.not_eq_true' _ ▸ hobs)

set_option synthInstance.maxSize 1000 in
/-- **A join that is put off leaves the joins to be probed behind.** -/
theorem unchanged_not_always : ¬ ∀ (q : Query) (computations : String → Computation)
    (cost : Option (WithTop Nat)) (size : Nat) (s₀ : TCAPAnalyzer)
    (x : List AbstractJobStage × TCAPAnalyzer), Acyclic q.plan → q.dynamicPlanningOrNot = true →
    create q computations cost size = some s₀ →
    Reach (planStep q) (fun _ _ => True) ([], s₀) x →
    ∀ (name : String) (cost : WithTop Nat) (size : Nat) (set : SetIdentifier)
      (node curNode : AtomicComputation) (l : List AtomicComputation) (s' : TCAPAnalyzer),
      x.2.curSourceSets name = some set → x.2.curSourceNodes name = some (node :: l) →
      (consumers q.plan node.outputName)[x.2.curProcessedConsumers name]? = some curNode →
      analyzeConsumer q node set curNode { x.2 with
        costOfCurSource := some cost, exactSizeOfCurSource := size
        curSourceSetName := name } = some (false, s') →
      Unchanged { x.2 with
        costOfCurSource := some cost, exactSizeOfCurSource := size
        curSourceSetName := name } s' := by
  intro hall
  let b : AtomicComputation := ⟨.scan, "b", "B", "", ""⟩
  let j : AtomicComputation := ⟨.joinSets, "j1", "J1", "A", "B"⟩
  -- the first source has been planned, and its stages have been handed out
  have hrun : ((create (leftDeepQuery true) leftDeepComputations none 0).bind fun s₀ =>
      (run (guarded (planStep (leftDeepQuery true)) fun _ _ => True) ([], s₀)
        [.pick "db:a" ((1 : Nat) : WithTop Nat) 1, .schedule]).bind fun x =>
      (analyzeConsumer (leftDeepQuery true) b { database := "db", setName := "b" } j { x.2 with
        costOfCurSource := some ((1 : Nat) : WithTop Nat), exactSizeOfCurSource := 1
        curSourceSetName := "db:b" }).map fun r =>
      (x.2.curSourceSets "db:b", x.2.curSourceNodes "db:b", x.2.curProcessedConsumers "db:b",
        x.2.outputForJoinSets, r.1, r.2.outputForJoinSets)) =
      some (some { database := "db", setName := "b" }, some [b], 0, [], false, ["J1"]) := by
    decide +kernel
  obtain ⟨s₀, h₀, hrun⟩ := Option.bind_eq_some_iff.mp hrun
  obtain ⟨x, hx, hrun⟩ := Option.bind_eq_some_iff.mp hrun
  obtain ⟨⟨r, s'⟩, hr, hobs⟩ := Option.map_eq_some_iff.mp hrun
  simp only [Prod.mk.injEq] at hobs
  obtain ⟨hset, hnode, hindex, hbefore, rfl, hafter⟩ := hobs
  have hu := hall _ _ _ _ s₀ x leftDeepPlan_acyclic rfl h₀ (Reach.of_run _ hx) "db:b" _ 1 _ b j []
    s' hset hnode (by rw [hindex]; decide +kernel) hr
  have hsame : s'.outputForJoinSets = x.2.outputForJoinSets := by rw [hu.state]
  rw [hbefore, hafter] at hsame
  cases hsame

end Netsdb
