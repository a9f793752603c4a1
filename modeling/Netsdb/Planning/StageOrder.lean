import Netsdb.Planning.QueryScheduler
import Netsdb.Lib.Justified
import Netsdb.Lib.Reach

/-!
# The order of the stages

* `StageOk`       a stage comes after what it reads: its source, and its hash sets;
* `PlanOk`        the invariant of the planner, and `analyzeNode_ok`: every call keeps it;
* `stagesOk_of_reach`   the stages of every run are in order, whatever sources are picked.
-/

set_option linter.unusedSectionVars false

namespace Netsdb
open Machine

/-! ## The order -/

/-- `builds` are the hash sets that a stage makes, `sources` the names of the sets that are scanned -/
structure StageOk (builds : AbstractJobStage → Option String) (sources : List String)
    (pre : List AbstractJobStage) (stage : AbstractJobStage) : Prop where
  increasing : ∀ b ∈ pre, b.getStageId < stage.getStageId
  built : ∀ e ∈ stage.hashSetsToProbe, ∃ b ∈ pre, builds b = some e.2
  read : stage.sourceContext.name ∈ sources ∨
    ∃ b ∈ pre, b.sinkContext.map (·.name) = some stage.sourceContext.name

/-- a set that is scanned, or that an earlier stage writes -/
def Readable (sources : List String) (stages : List AbstractJobStage) (name : String) : Prop :=
  name ∈ sources ∨ ∃ b ∈ stages, b.sinkContext.map (·.name) = some name

theorem Readable.mono {sources : List String} {l l' : List AbstractJobStage} {name : String}
    (h : Readable sources l name) (hl : l ⊆ l') : Readable sources l' name := by
  obtain h | ⟨b, hb, he⟩ := h
  · exact .inl h
  · exact .inr ⟨b, hl hb, he⟩

/-- some stage makes the hash set -/
def Built (stages : List AbstractJobStage) (name : String) : Prop :=
  ∃ b ∈ stages, b.builds = some name

theorem Built.mono {l l' : List AbstractJobStage} {name : String} (h : Built l name)
    (hl : l ⊆ l') : Built l' name := by
  obtain ⟨b, hb, he⟩ := h
  exact ⟨b, hl hb, he⟩

/-! ## The invariant -/

namespace TCAPAnalyzer

/-- `before` are the stages that have been handed out, `named` the names that the set of a computation may
have though no stage has written it -/
structure PlanOk (sources : List String) (named : String → String → Prop) (before : List AbstractJobStage)
    (s : TCAPAnalyzer) : Prop where
  stages : Justified (StageOk AbstractJobStage.builds sources) (before ++ s.physicalPlanToOutput)
  ids : ∀ b ∈ before ++ s.physicalPlanToOutput, b.getStageId < s.jobStageId
  hashSets : ∀ m o h, s.hashSetsToProbe = some m → m o = some h →
    Built (before ++ s.physicalPlanToOutput) h
  traversed : ∀ o, s.traversed o = true → ∃ m h, s.hashSetsToProbe = some m ∧ m o = some h
  outputs : ∀ o ∈ s.outputForJoinSets, ∃ m h, s.hashSetsToProbe = some m ∧ m o = some h
  sets : ∀ n set, s.curSourceSets n = some set →
    Readable sources (before ++ s.physicalPlanToOutput) set.name
  computations : ∀ c, named c (s.computations c).setId.name ∨
    ∃ b ∈ before ++ s.physicalPlanToOutput,
      b.sinkContext.map (·.name) = some (s.computations c).setId.name

section
variable {q : Query} {sources : List String} {named : String → String → Prop}
  {before : List AbstractJobStage} {s s' : TCAPAnalyzer}

/-- what the invariant is about is left as it is -/
theorem PlanOk.congr (h : PlanOk sources named before s)
    (h₁ : s'.physicalPlanToOutput = s.physicalPlanToOutput) (h₂ : s'.jobStageId = s.jobStageId)
    (h₃ : s'.hashSetsToProbe = s.hashSetsToProbe) (h₄ : s'.traversed = s.traversed)
    (h₅ : s'.outputForJoinSets = s.outputForJoinSets) (h₆ : s'.curSourceSets = s.curSourceSets)
    (h₇ : ∀ c, (s'.computations c).setId = (s.computations c).setId) :
    PlanOk sources named before s' := by
  refine ⟨?_, ?_, ?_, ?_, ?_, ?_, fun c => ?_⟩
  · rw [h₁]
    exact h.stages
  · rw [h₁, h₂]
    exact h.ids
  · rw [h₁, h₃]
    exact h.hashSets
  · rw [h₃, h₄]
    exact h.traversed
  · rw [h₃, h₅]
    exact h.outputs
  · rw [h₁, h₆]
    exact h.sets
  · rw [h₁, h₇]
    exact h.computations c

/-- the names that a computation may have -/
theorem PlanOk.renamed {named' : String → String → Prop} (h : PlanOk sources named' before s)
    (hn : ∀ c n, named' c n → named c n ∨ ∃ b ∈ before ++ s.physicalPlanToOutput,
      b.sinkContext.map (·.name) = some n) : PlanOk sources named before s :=
  ⟨h.stages, h.ids, h.hashSets, h.traversed, h.outputs, h.sets, fun c =>
    (h.computations c).elim (hn c _) .inr⟩

/-- one more stage -/
theorem PlanOk.push (h : PlanOk sources named before s) {stage : AbstractJobStage}
    {outputs : List String} (hid : stage.getStageId = s.jobStageId)
    (hread : Readable sources (before ++ s.physicalPlanToOutput) stage.sourceContext.name)
    (hprobe : ∀ e ∈ stage.hashSetsToProbe, Built (before ++ s.physicalPlanToOutput) e.2)
    (hout : ∀ o ∈ outputs, o ∈ s.outputForJoinSets) :
    PlanOk sources named before { s with
      jobStageId := s.jobStageId + 1
      physicalPlanToOutput := s.physicalPlanToOutput ++ [stage]
      outputForJoinSets := outputs } := by
  have hsub : before ++ s.physicalPlanToOutput ⊆
      before ++ (s.physicalPlanToOutput ++ [stage]) := by
    rw [← List.append_assoc]
    exact List.subset_append_left _ _
  refine ⟨?_, fun b hb => ?_, fun m o x hm ho => (h.hashSets m o x hm ho).mono hsub, h.traversed,
    fun o ho => h.outputs o (hout o ho), fun n set hs => (h.sets n set hs).mono hsub, fun c => ?_⟩
  · show Justified _ (before ++ (s.physicalPlanToOutput ++ [stage]))
    rw [← List.append_assoc]
    refine h.stages.snoc ⟨fun b hb => ?_, hprobe, hread⟩
    rw [hid]
    exact h.ids b hb
  · have hb : b ∈ before ++ (s.physicalPlanToOutput ++ [stage]) := hb
    rw [← List.append_assoc] at hb
    obtain hb | hb := List.mem_append.mp hb
    · exact Nat.lt_succ_of_lt (h.ids b hb)
    · obtain rfl := List.mem_singleton.mp hb
      rw [hid]
      exact Nat.lt_succ_self _
  · obtain hc | ⟨b, hb, he⟩ := h.computations c
    · exact .inl hc
    · exact .inr ⟨b, hsub hb, he⟩

/-- what is changed in a stage before it is pushed -/
structure Decorates (f : TupleSetJobStage → TupleSetJobStage) : Prop where
  stageId : ∀ st, (f st).id = st.id
  sourceContext : ∀ st, (f st).sourceContext = st.sourceContext
  sinkContext : ∀ st, (f st).sinkContext = st.sinkContext
  hashSetsToProbe : ∀ st, (f st).hashSetsToProbe = st.hashSetsToProbe
  hasLocalJoinSink : ∀ st, (f st).hasLocalJoinSink = st.hasLocalJoinSink

theorem Decorates.of_id : Decorates id := ⟨fun _ => rfl, fun _ => rfl, fun _ => rfl, fun _ => rfl,
  fun _ => rfl⟩

section
variable {stage : TupleSetJobStage} {isProbing : Bool} {joinType : JoinType}
  {f : TupleSetJobStage → TupleSetJobStage}

variable (stage isProbing joinType) in
theorem pushTupleSetJobStage_ok (h : PlanOk sources named before s) (hf : Decorates f)
    (hread : Readable sources (before ++ s.physicalPlanToOutput) stage.sourceContext.name) :
    PlanOk sources named before (s.pushTupleSetJobStage q stage isProbing joinType f) := by
  refine PlanOk.push h ?_ ?_ (fun e he => ?_) fun o ho => ?_
  · exact hf.stageId _
  · show Readable _ _ (f _).sourceContext.name
    rw [hf.sourceContext]
    exact hread
  · have he : e ∈ (f _).hashSetsToProbe := he
    rw [hf.hashSetsToProbe] at he
    have he : e ∈ if s.probes isProbing then
      s.outputForJoinSets.map fun o => (o, (s.hashSetsToProbe.bind fun m => m o).getD "")
      else [] := he
    split at he
    · obtain ⟨o, ho, rfl⟩ := List.mem_map.mp he
      obtain ⟨m, x, hm, hx⟩ := h.outputs o ho
      rw [hm, Option.bind_some, hx, Option.getD_some]
      exact h.hashSets m o x hm hx
    · cases he
  · split at ho
    · cases ho
    · exact ho

theorem pushTupleSetJobStage_sink (hf : Decorates f) :
    ∃ b ∈ (s.pushTupleSetJobStage q stage isProbing joinType f).physicalPlanToOutput,
      b.sinkContext = some stage.sinkContext :=
  ⟨_, List.mem_append_right _ (List.mem_singleton.mpr rfl), congrArg some (hf.sinkContext _)⟩

theorem pushTupleSetJobStage_builds (hf : Decorates f) (hl : stage.hasLocalJoinSink = true) :
    Built (s.pushTupleSetJobStage q stage isProbing joinType f).physicalPlanToOutput
      stage.sinkContext.name := by
  refine ⟨_, List.mem_append_right _ (List.mem_singleton.mpr rfl), ?_⟩
  show (if (f _).hasLocalJoinSink then some (f _).sinkContext.name else none) = _
  rw [hf.hasLocalJoinSink, hf.sinkContext]
  exact if_pos hl

end

theorem pushAggregationJobStage_ok (h : PlanOk sources named before s) (aggComp : String)
    {source : SetIdentifier} (sink : SetIdentifier) (m : Bool)
    (hread : Readable sources (before ++ s.physicalPlanToOutput) source.name) :
    PlanOk sources named before (s.pushAggregationJobStage q aggComp source sink m) :=
  PlanOk.push h rfl hread (fun _ he => by cases he) fun _ ho => ho

/-- one of the two stages that build the hash table of a join -/
theorem pushJoinBuildHTJobStage_ok (h : PlanOk sources named before s)
    {stage : JoinBuildHTJobStage → AbstractJobStage}
    (hstage : stage = .broadcastJoinBuildHT ∨ stage = .hashPartitionedJoinBuildHT)
    (source target comp hashSet : String) (set : SetIdentifier) (r : Bool)
    (hread : Readable sources (before ++ s.physicalPlanToOutput) set.name) :
    PlanOk sources named before
        (s.pushJoinBuildHTJobStage q stage source target comp set hashSet r) ∧
      Built (s.pushJoinBuildHTJobStage q stage source target comp set hashSet r).physicalPlanToOutput
        hashSet := by
  obtain rfl | rfl := hstage
  · exact ⟨PlanOk.push h rfl hread (fun _ he => by cases he) fun _ ho => ho,
      _, List.mem_append_right _ (List.mem_singleton.mpr rfl), rfl⟩
  · exact ⟨PlanOk.push h rfl hread (fun _ he => by cases he) fun _ ho => ho,
      _, List.mem_append_right _ (List.mem_singleton.mpr rfl), rfl⟩

/-! ## The tables of the sources -/

theorem removeSource_ok (h : PlanOk sources named before s) (n : String) :
    PlanOk sources named before (s.removeSource n) ∧
      (s.removeSource n).physicalPlanToOutput = s.physicalPlanToOutput := by
  unfold removeSource
  dsimp only
  split
  · exact ⟨h.congr rfl rfl rfl rfl rfl rfl fun _ => rfl, rfl⟩
  · refine ⟨⟨h.stages, h.ids, h.hashSets, h.traversed, h.outputs, fun k set hk => ?_,
      h.computations⟩, rfl⟩
    have hk : Function.update s.curSourceSets n none k = some set := hk
    by_cases hkn : k = n
    · rw [hkn, Function.update_self] at hk
      cases hk
    · rw [Function.update_of_ne hkn] at hk
      exact h.sets k set hk

theorem addSource_ok (h : PlanOk sources named before s) {set : SetIdentifier}
    (node : AtomicComputation)
    (hset : Readable sources (before ++ s.physicalPlanToOutput) set.name) :
    PlanOk sources named before (s.addSource set node) := by
  refine ⟨h.stages, h.ids, h.hashSets, h.traversed, h.outputs, fun k set' hk => ?_,
    h.computations⟩
  have hk : Function.update s.curSourceSets set.name (some set) k = some set' := hk
  by_cases hkn : k = set.name
  · rw [hkn, Function.update_self] at hk
    obtain rfl := Option.some.inj hk
    exact hset
  · rw [Function.update_of_ne hkn] at hk
    exact h.sets k set' hk

theorem updateSourceSets_ok (h : PlanOk sources named before s) (old : SetIdentifier)
    {new : Option (SetIdentifier × AtomicComputation)}
    (hnew : ∀ e, new = some e → Readable sources (before ++ s.physicalPlanToOutput) e.1.name) :
    PlanOk sources named before (s.updateSourceSets q old new) ∧
      (s.updateSourceSets q old new).physicalPlanToOutput = s.physicalPlanToOutput := by
  have hadd : PlanOk sources named before (new.elim s fun e => s.addSource e.1 e.2) ∧
      (new.elim s fun e => s.addSource e.1 e.2).physicalPlanToOutput = s.physicalPlanToOutput := by
    cases new with
    | none => exact ⟨h, rfl⟩
    | some e => exact ⟨addSource_ok h e.2 (hnew e rfl), rfl⟩
  unfold updateSourceSets
  dsimp only
  split
  · split
    · obtain ⟨hr, he⟩ := removeSource_ok hadd.1 old.name
      exact ⟨hr, he.trans hadd.2⟩
    · exact hadd
  · exact hadd

end
end TCAPAnalyzer

/-! ## One call of `analyze` -/

namespace AnalyzeArgs
open TCAPAnalyzer

/-- the source of the call can be read -/
def Ok (sources : List String) (stages : List AbstractJobStage) (a : AnalyzeArgs) : Prop :=
  Readable sources stages a.curInputSetIdentifier.name

/-- the stages so far stay, and the calls that follow have their sources -/
def OutcomeOk (sources : List String) (named : String → String → Prop) (before : List AbstractJobStage)
    (s : TCAPAnalyzer) : AnalyzeOutcome → Prop
  | .ret _ s' => PlanOk sources named before s' ∧
      s.physicalPlanToOutput <+: s'.physicalPlanToOutput
  | .calls l s' => PlanOk sources named before s' ∧
      s.physicalPlanToOutput <+: s'.physicalPlanToOutput ∧
      ∀ a ∈ l, a.Ok sources (before ++ s'.physicalPlanToOutput)

section
variable {q : Query} {sources : List String} {named : String → String → Prop}
  {before : List AbstractJobStage} {s : TCAPAnalyzer} {a : AnalyzeArgs}

theorem Readable.of_prefix {l l' : List AbstractJobStage} {name : String}
    (h : Readable sources (before ++ l) name) (hl : l <+: l') :
    Readable sources (before ++ l') name :=
  h.mono (List.append_subset.mpr ⟨List.subset_append_left _ _,
    List.Subset.trans hl.subset (List.subset_append_right _ _)⟩)

theorem Readable.of_sink {l : List AbstractJobStage} {set : SetIdentifier}
    (h : ∃ b ∈ l, b.sinkContext = some set) : Readable sources (before ++ l) set.name := by
  obtain ⟨b, hb, he⟩ := h
  exact .inr ⟨b, List.mem_append_right _ hb, by rw [he]; rfl⟩

theorem Built.of_right {l : List AbstractJobStage} {name : String} (h : Built l name) :
    Built (before ++ l) name :=
  h.mono (List.subset_append_right _ _)

theorem updateSourceSets_ok (h : PlanOk sources named before s)
    (new : Option (SetIdentifier × AtomicComputation))
    (hnew : ∀ e, new = some e → Readable sources (before ++ s.physicalPlanToOutput) e.1.name) :
    PlanOk sources named before (a.updateSourceSets q s new) ∧
      (a.updateSourceSets q s new).physicalPlanToOutput = s.physicalPlanToOutput := by
  unfold AnalyzeArgs.updateSourceSets
  split
  · exact TCAPAnalyzer.updateSourceSets_ok h _ hnew
  · exact ⟨h, rfl⟩

theorem pushAggregation_ok (h : PlanOk sources named before s)
    (ha : a.Ok sources (before ++ s.physicalPlanToOutput)) (m : Bool) (n : Nat)
    (sink : SetIdentifier) (r : Bool) :
    PlanOk sources named before (a.pushAggregation q s m n sink r) ∧
      s.physicalPlanToOutput <+: (a.pushAggregation q s m n sink r).physicalPlanToOutput ∧
      ∃ b ∈ (a.pushAggregation q s m n sink r).physicalPlanToOutput,
        b.sinkContext = some sink := by
  have h₁ := pushTupleSetJobStage_ok (q := q)
    { a.pipeline s a.curNode.inputName "IntermediateData" (s.intermediateSet q
      (a.curNode.outputName ++ "_aggregationData") q.shufflePageSize) with
      combinerContext :=
        if (a.myComputation s).usingCombiner then
          some { database := q.jobId, setName := a.curNode.outputName ++ "_combinerData" }
        else none
      repartitionOrNot := true
      collectAsMapOrNot := m
      numNodesToCollect := n } a.isProbing a.joinType h Decorates.of_id ha
  have h₂ := pushAggregationJobStage_ok (q := q) h₁ a.mySpecifier sink r
    (Readable.of_sink (pushTupleSetJobStage_sink Decorates.of_id))
  refine ⟨h₂.congr rfl rfl rfl rfl rfl rfl fun _ => rfl, ?_, ?_⟩
  · exact (List.prefix_append _ _).trans (List.prefix_append _ _)
  · exact ⟨_, List.mem_append_right _ (List.mem_singleton.mpr rfl), rfl⟩

theorem analyzeSink_ok (h : PlanOk sources named before s)
    (ha : a.Ok sources (before ++ s.physicalPlanToOutput)) {s' : TCAPAnalyzer}
    (hs : a.analyzeSink q s = some s') :
    PlanOk sources named before s' ∧ s.physicalPlanToOutput <+: s'.physicalPlanToOutput := by
  have hpush : ∀ stage : TupleSetJobStage, stage.sourceContext = a.curInputSetIdentifier →
      PlanOk sources named before (a.updateSourceSets q
        (s.pushTupleSetJobStage q stage a.isProbing a.joinType) none) ∧
      s.physicalPlanToOutput <+: (a.updateSourceSets q
        (s.pushTupleSetJobStage q stage a.isProbing a.joinType) none).physicalPlanToOutput := by
    intro stage hstage
    have h₁ := pushTupleSetJobStage_ok (q := q) stage a.isProbing a.joinType h Decorates.of_id
      (by rw [hstage]; exact ha)
    obtain ⟨h₂, he⟩ := updateSourceSets_ok (a := a) (q := q) h₁ none nofun
    rw [he]
    exact ⟨h₂, List.prefix_append _ _⟩
  unfold analyzeSink at hs
  dsimp only at hs
  split at hs
  · rw [← Option.some.inj hs]
    obtain ⟨h₁, hp, -⟩ := pushAggregation_ok (q := q) h ha (a.myComputation s).collectAsMap
      (a.myComputation s).numNodesToCollect (a.outputSet s) true
    obtain ⟨h₂, he⟩ := updateSourceSets_ok (a := a) (q := q) h₁ none nofun
    rw [he]
    exact ⟨h₂, hp⟩
  · rw [← Option.some.inj hs]
    exact hpush _ rfl
  · rw [← Option.some.inj hs]
    exact hpush _ rfl
  · rw [← Option.some.inj hs]
    exact hpush _ rfl
  · rw [← Option.some.inj hs]
    exact hpush _ rfl
  · cases hs

theorem analyzeAggregate_ok (h : PlanOk sources named before s)
    (ha : a.Ok sources (before ++ s.physicalPlanToOutput)) (nextNode : AtomicComputation) :
    OutcomeOk sources named before s (a.analyzeAggregate q s nextNode) := by
  unfold analyzeAggregate
  dsimp only
  obtain ⟨h₁, hp, hsink⟩ := pushAggregation_ok (q := q) h ha (a.myComputation s).collectAsMap
    (a.myComputation s).numNodesToCollect (a.aggregationSink q s)
    (a.myComputation s).materializeOutput
  split
  · obtain ⟨h₂, he⟩ := updateSourceSets_ok (a := a) (q := q) h₁
      (some (a.aggregationSink q s, a.curNode)) fun e he => by
        rw [← Option.some.inj he]
        exact Readable.of_sink hsink
    refine ⟨h₂, ?_⟩
    rw [he]
    exact hp
  · refine ⟨h₁.congr rfl rfl rfl rfl rfl rfl fun _ => rfl, hp, fun a' ha' => ?_⟩
    obtain rfl := List.mem_singleton.mp ha'
    exact Readable.of_sink hsink

theorem buildDone_ok (h : PlanOk sources named before s) {s₀ : TCAPAnalyzer}
    (hp : s₀.physicalPlanToOutput <+: s.physicalPlanToOutput) {hashSetName : String}
    (hb : Built s.physicalPlanToOutput hashSetName) :
    OutcomeOk sources named before s₀ (a.buildDone q s hashSetName) := by
  unfold buildDone
  dsimp only
  have h₁ : PlanOk sources named before { s with
      hashSetsToProbe := some (Function.update (s.hashSetsToProbe.getD fun _ => none)
        a.curNode.outputName (some hashSetName))
      traversed := Function.update s.traversed a.curNode.outputName true } := by
    -- what has been recorded stays
    have hkeep : ∀ o, (∃ m x, s.hashSetsToProbe = some m ∧ m o = some x) →
        ∃ m x, some (Function.update (s.hashSetsToProbe.getD fun _ => none) a.curNode.outputName
          (some hashSetName)) = some m ∧ m o = some x := by
      rintro o ⟨m, x, hm, hx⟩
      refine ⟨_, if o = a.curNode.outputName then hashSetName else x, rfl, ?_⟩
      rw [hm, Option.getD_some]
      split
      · next ho => rw [ho, Function.update_self]
      · next ho => rw [Function.update_of_ne ho, hx]
    refine ⟨h.stages, h.ids, fun m o x hm hx => ?_, fun o ho => ?_,
      fun o ho => hkeep o (h.outputs o ho), h.sets, h.computations⟩
    · obtain rfl := Option.some.inj hm
      by_cases ho : o = a.curNode.outputName
      · rw [ho, Function.update_self] at hx
        rw [← Option.some.inj hx]
        exact Built.of_right hb
      · rw [Function.update_of_ne ho] at hx
        cases hs : s.hashSetsToProbe with
        | none =>
          rw [hs] at hx
          cases hx
        | some m =>
          rw [hs, Option.getD_some] at hx
          exact h.hashSets m o x hs hx
    · have ho : Function.update s.traversed a.curNode.outputName true o = true := ho
      by_cases he : o = a.curNode.outputName
      · exact ⟨_, hashSetName, rfl, by rw [he, Function.update_self]⟩
      · rw [Function.update_of_ne he] at ho
        exact hkeep o (h.traversed o ho)
  obtain ⟨h₂, he⟩ := updateSourceSets_ok (a := a) (q := q) h₁ none nofun
  refine ⟨h₂, ?_⟩
  rw [he]
  exact hp

/-- a computation is changed, and its set is not -/
theorem modifyComputation_ok (h : PlanOk sources named before s) (n : String)
    {f : Computation → Computation} (hf : ∀ c, (f c).setId = c.setId) :
    PlanOk sources named before (s.modifyComputation n f) := by
  refine h.congr rfl rfl rfl rfl rfl rfl fun c => ?_
  show (Function.update s.computations n (f (s.computations n)) c).setId = _
  by_cases hc : c = n
  · rw [hc, Function.update_self, hf]
  · rw [Function.update_of_ne hc]

theorem setHashPartitionedJoin_ok (h : PlanOk sources named before s) (n : String) :
    PlanOk sources named before (s.setHashPartitionedJoin n) :=
  modifyComputation_ok h n fun c => by
    split
    · rfl
    · rfl

theorem pushSet_ok (h : PlanOk sources named before s) (set : SetIdentifier) :
    PlanOk sources named before (s.pushSet set) :=
  h.congr rfl rfl rfl rfl rfl rfl fun _ => rfl

/-- a stage of the call's own source -/
theorem pushOwnStage_ok (h : PlanOk sources named before s)
    (ha : a.Ok sources (before ++ s.physicalPlanToOutput)) (stage : TupleSetJobStage)
    (hstage : stage.sourceContext = a.curInputSetIdentifier) (joinType : JoinType)
    {f : TupleSetJobStage → TupleSetJobStage} (hf : Decorates f) :
    PlanOk sources named before (s.pushTupleSetJobStage q stage a.isProbing joinType f) ∧
      s.physicalPlanToOutput <+:
        (s.pushTupleSetJobStage q stage a.isProbing joinType f).physicalPlanToOutput :=
  ⟨pushTupleSetJobStage_ok stage _ _ h hf (by rw [hstage]; exact ha), List.prefix_append _ _⟩

theorem pushHashPartitionedBuild_ok (h : PlanOk sources named before s)
    (ha : a.Ok sources (before ++ s.physicalPlanToOutput)) :
    PlanOk sources named before (a.pushHashPartitionedBuild q s) ∧
      s.physicalPlanToOutput <+: (a.pushHashPartitionedBuild q s).physicalPlanToOutput ∧
      Built (a.pushHashPartitionedBuild q s).physicalPlanToOutput (a.repartitionSink q s).name := by
  unfold pushHashPartitionedBuild
  dsimp only
  have hf : ∀ t : String, Decorates fun stage => { stage with joinType := t } := fun _ =>
    ⟨fun _ => rfl, fun _ => rfl, fun _ => rfl, fun _ => rfl, fun _ => rfl⟩
  obtain ⟨h₁, hp⟩ := pushOwnStage_ok (q := q) (a := a)
    (setHashPartitionedJoin_ok h a.mySpecifier) ha
    { a.pipeline s a.prevNode.outputName "IntermediateData" (a.repartitionSink q s) with
      repartitionOrNot := true, repartitionJoinOrNot := true } rfl
    ((a.myComputation (s.setHashPartitionedJoin a.mySpecifier)).joinType)
    (hf (a.myComputation (s.setHashPartitionedJoin a.mySpecifier)).joinType.toStageString)
  have h₂ := pushSet_ok h₁ (a.repartitionSink q s)
  obtain ⟨h₃, hb⟩ := pushJoinBuildHTJobStage_ok (q := q) h₂ (.inr rfl)
    a.sourceTupleSetName a.prevNode.outputName a.mySpecifier
    (a.repartitionSink q s).name (a.repartitionSink q s) false
    (Readable.of_sink (pushTupleSetJobStage_sink (hf _)))
  exact ⟨h₃, hp.trans (List.prefix_append _ _), hb⟩

theorem pushLocalBuild_ok (h : PlanOk sources named before s)
    (ha : a.Ok sources (before ++ s.physicalPlanToOutput)) :
    PlanOk sources named before (a.pushLocalBuild q s) ∧
      s.physicalPlanToOutput <+: (a.pushLocalBuild q s).physicalPlanToOutput ∧
      Built (a.pushLocalBuild q s).physicalPlanToOutput (a.repartitionSink q s).name := by
  unfold pushLocalBuild
  dsimp only
  have hf : ∀ c l : String, Decorates fun stage =>
      { stage with partitionComputationSpecifier := c, partitionLambdaName := l } := fun _ _ =>
    ⟨fun _ => rfl, fun _ => rfl, fun _ => rfl, fun _ => rfl, fun _ => rfl⟩
  have h₁ := modifyComputation_ok h a.mySpecifier
    (f := fun c => { c with joinType := .LocalJoin }) fun _ => rfl
  have h₂ := modifyComputation_ok h₁ a.sourceComputation (f := fun c =>
    if c.type = .scanUserSet ∨ c.type = .scanSet then { c with followedByLocalJoin := true } else c)
    fun c => by
      split
      · rfl
      · rfl
  obtain ⟨h₃, hp⟩ := pushOwnStage_ok (q := q) (a := a) h₂ ha
    { a.pipeline s a.prevNode.outputName "IntermediateData" (a.repartitionSink q s) with
      repartitionOrNot := true, hasLocalJoinSink := true } rfl .LocalJoin
    (hf (a.matchSource q).2.1 (a.matchSource q).2.2)
  exact ⟨h₃, hp, pushTupleSetJobStage_builds (hf _ _) rfl⟩

theorem pushBroadcastBuild_ok (h : PlanOk sources named before s)
    (ha : a.Ok sources (before ++ s.physicalPlanToOutput)) :
    PlanOk sources named before (a.pushBroadcastBuild q s) ∧
      s.physicalPlanToOutput <+: (a.pushBroadcastBuild q s).physicalPlanToOutput ∧
      Built (a.pushBroadcastBuild q s).physicalPlanToOutput (a.broadcastSink q s).name := by
  unfold pushBroadcastBuild
  dsimp only
  obtain ⟨h₁, hp⟩ := pushOwnStage_ok (q := q) (a := a) h ha
    { a.pipeline s a.prevNode.outputName "IntermediateData" (a.broadcastSink q s) with
      broadcastOrNot := true } rfl (a.myComputation s).joinType Decorates.of_id
  have h₂ := pushSet_ok h₁ (a.broadcastSink q s)
  obtain ⟨h₃, hb⟩ := pushJoinBuildHTJobStage_ok (q := q) h₂ (.inl rfl)
    a.sourceTupleSetName a.prevNode.outputName a.mySpecifier
    (a.broadcastSink q s).name (a.broadcastSink q s) false
    (Readable.of_sink (pushTupleSetJobStage_sink Decorates.of_id))
  exact ⟨h₃, hp.trans (List.prefix_append _ _), hb⟩

theorem analyzeBuild_ok (h : PlanOk sources named before s)
    (ha : a.Ok sources (before ++ s.physicalPlanToOutput)) :
    OutcomeOk sources named before s (a.analyzeBuild q s) := by
  unfold analyzeBuild
  split
  · exact ⟨h.congr rfl rfl rfl rfl rfl rfl fun _ => rfl, List.prefix_rfl⟩
  · split
    · have h₁ : PlanOk sources named before (a.setPartitioningLHS s) :=
        h.congr rfl rfl rfl rfl rfl rfl fun _ => rfl
      unfold analyzePartitionedBuild
      dsimp only
      split
      · obtain ⟨h₂, hp, hb⟩ := pushLocalBuild_ok (q := q) h₁ ha
        exact buildDone_ok h₂ hp hb
      · obtain ⟨h₂, hp, hb⟩ := pushHashPartitionedBuild_ok (q := q) h₁ ha
        exact buildDone_ok h₂ hp hb
    · obtain ⟨h₂, hp, hb⟩ := pushBroadcastBuild_ok (q := q) h ha
      exact buildDone_ok h₂ hp hb

/-- a join that is probed has its hash set -/
theorem pushOutputForJoinSets_ok (h : PlanOk sources named before s) {o : String}
    (ho : s.traversed o = true) : PlanOk sources named before (s.pushOutputForJoinSets o) := by
  refine ⟨h.stages, h.ids, h.hashSets, h.traversed, fun o' ho' => ?_, h.sets, h.computations⟩
  obtain ho' | ho' := List.mem_append.mp ho'
  · exact h.outputs o' ho'
  · obtain rfl := List.mem_singleton.mp ho'
    exact h.traversed o' ho

theorem pushHashPartitionedProbe_ok (h : PlanOk sources named before s)
    (ha : a.Ok sources (before ++ s.physicalPlanToOutput))
    (ht : s.traversed a.curNode.outputName = true) :
    PlanOk sources named before (a.pushHashPartitionedProbe q s) ∧
      s.physicalPlanToOutput <+: (a.pushHashPartitionedProbe q s).physicalPlanToOutput ∧
      ∃ b ∈ (a.pushHashPartitionedProbe q s).physicalPlanToOutput,
        b.sinkContext = some (a.probingSink q s) := by
  unfold pushHashPartitionedProbe
  dsimp only
  have hf : ∀ t : String, Decorates fun stage =>
      { stage with joinType := t, joinTupleSourceOrNot := true } := fun _ =>
    ⟨fun _ => rfl, fun _ => rfl, fun _ => rfl, fun _ => rfl, fun _ => rfl⟩
  obtain ⟨h₁, hp⟩ := pushOwnStage_ok (q := q) (a := a)
    (setHashPartitionedJoin_ok h a.mySpecifier) ha
    { a.pipeline s a.prevNode.outputName "IntermediateData" (a.probingSink q s) with
      repartitionOrNot := true, repartitionJoinOrNot := true } rfl
    ((a.myComputation (s.setHashPartitionedJoin a.mySpecifier)).joinType)
    (hf (a.myComputation (s.setHashPartitionedJoin a.mySpecifier)).joinType.toStageString)
  have h₂ := pushSet_ok h₁ (a.probingSink q s)
  have h₃ := pushOutputForJoinSets_ok h₂ (o := a.curNode.outputName) ht
  exact ⟨h₃.congr rfl rfl rfl rfl rfl rfl fun _ => rfl, hp, pushTupleSetJobStage_sink (hf _)⟩

theorem analyzeProbe_ok (h : PlanOk sources named before s)
    (ha : a.Ok sources (before ++ s.physicalPlanToOutput))
    (ht : s.traversed a.curNode.outputName = true) (nextNode : AtomicComputation) :
    OutcomeOk sources named before s (a.analyzeProbe q s nextNode) := by
  have hpass : PlanOk sources named before (a.passJoin s) :=
    (pushOutputForJoinSets_ok h ht).congr rfl rfl rfl rfl rfl rfl fun _ => rfl
  unfold analyzeProbe
  split
  · split
    · obtain ⟨h₁, hp, hsink⟩ := pushHashPartitionedProbe_ok (q := q) h ha ht
      refine ⟨h₁, hp, fun a' ha' => ?_⟩
      obtain rfl := List.mem_singleton.mp ha'
      exact Readable.of_sink hsink
    · refine ⟨hpass, List.prefix_rfl, fun a' ha' => ?_⟩
      obtain rfl := List.mem_singleton.mp ha'
      exact ha
  · refine ⟨hpass, List.prefix_rfl, fun a' ha' => ?_⟩
    obtain rfl := List.mem_singleton.mp ha'
    exact ha

theorem pushMaterializing_ok (h : PlanOk sources named before s)
    (ha : a.Ok sources (before ++ s.physicalPlanToOutput)) (sink : SetIdentifier) :
    PlanOk sources named before (a.pushMaterializing q s sink) ∧
      s.physicalPlanToOutput <+: (a.pushMaterializing q s sink).physicalPlanToOutput ∧
      ∃ b ∈ (a.pushMaterializing q s sink).physicalPlanToOutput, b.sinkContext = some sink := by
  unfold pushMaterializing
  dsimp only
  split
  · have h₁ : PlanOk sources named before (s.pushTupleSet a.curNode.outputName) :=
      h.congr rfl rfl rfl rfl rfl rfl fun _ => rfl
    obtain ⟨h₂, hp⟩ := pushOwnStage_ok (q := q) (a := a) h₁ ha
      (a.pipeline (s.pushTupleSet a.curNode.outputName) a.curNode.outputName
        (a.myComputation s).outputType sink) rfl a.joinType Decorates.of_id
    exact ⟨h₂, hp, pushTupleSetJobStage_sink Decorates.of_id⟩
  · exact pushAggregation_ok h ha _ _ _ _

/-- the name of the new set is a name that its computation may have, until a stage has written it -/
theorem materialize_ok (h : PlanOk sources named before s) :
    PlanOk sources
      (fun c n => named c n ∨ (a.mySpecifier = c ∧ n = (a.materializedSink q s).name)) before
      (a.materialize q s) ∧
    (a.materialize q s).physicalPlanToOutput = s.physicalPlanToOutput ∧
    ((a.myComputation s).type = .joinComp → PlanOk sources named before (a.materialize q s)) ∧
    (a.myComputation (a.materialize q s)).type = (a.myComputation s).type := by
  have hweak : PlanOk sources
      (fun c n => named c n ∨ (a.mySpecifier = c ∧ n = (a.materializedSink q s).name)) before s :=
    h.renamed fun c n hn => .inl (.inl hn)
  unfold materialize
  split
  · exact ⟨hweak, rfl, fun _ => h, rfl⟩
  · next hm =>
    have hupd : ∀ c, ((s.modifyComputation a.mySpecifier fun c =>
        c.setOutput q.jobId a.curNode.outputName).computations c) =
        if c = a.mySpecifier then (s.computations c).setOutput q.jobId a.curNode.outputName
        else s.computations c := by
      intro c
      show Function.update s.computations a.mySpecifier _ c = _
      by_cases hc : c = a.mySpecifier
      · rw [if_pos hc, hc, Function.update_self]
      · rw [if_neg hc, Function.update_of_ne hc]
    have hset : ∀ c : Computation, (c.setOutput q.jobId a.curNode.outputName).setId = c.setId ∨
        (c.setOutput q.jobId a.curNode.outputName).setId.name =
          (a.materializedSink q s).name := by
      intro c
      unfold Computation.setOutput
      split
      · exact .inr (by rw [materializedSink, if_neg hm]; rfl)
      · exact .inr (by rw [materializedSink, if_neg hm]; rfl)
      · exact .inr (by rw [materializedSink, if_neg hm]; rfl)
      · exact .inr (by rw [materializedSink, if_neg hm]; rfl)
      · exact .inl rfl
    refine ⟨?_, rfl, fun hj => ?_, ?_⟩
    · have h' : PlanOk sources
          (fun c n => named c n ∨ (a.mySpecifier = c ∧ n = (a.materializedSink q s).name)) before
          (s.modifyComputation a.mySpecifier fun c =>
            c.setOutput q.jobId a.curNode.outputName) := by
        refine ⟨hweak.stages, hweak.ids, hweak.hashSets, hweak.traversed, hweak.outputs,
          hweak.sets, fun c => ?_⟩
        rw [hupd]
        split
        · next hc =>
          obtain he | he := hset (s.computations c)
          · rw [he]
            exact hweak.computations c
          · exact .inl (.inr ⟨hc.symm, he⟩)
        · exact hweak.computations c
      exact pushSet_ok h' _
    · have h' : PlanOk sources named before (s.modifyComputation a.mySpecifier fun c =>
          c.setOutput q.jobId a.curNode.outputName) := by
        refine h.congr rfl rfl rfl rfl rfl rfl fun c => ?_
        rw [hupd]
        split
        · next hc =>
          have hj' : (s.computations c).type = .joinComp := by rw [hc]; exact hj
          unfold Computation.setOutput
          rw [hj']
        · rfl
      exact pushSet_ok h' _
    · show ((s.modifyComputation a.mySpecifier fun c =>
        c.setOutput q.jobId a.curNode.outputName).computations a.mySpecifier).type = _
      rw [hupd, if_pos rfl]
      unfold Computation.setOutput
      split <;> rfl

theorem analyzeSeveral_ok (h : PlanOk sources named before s)
    (ha : a.Ok sources (before ++ s.physicalPlanToOutput)) (nextNodes : List AtomicComputation) :
    OutcomeOk sources named before s (a.analyzeSeveral q s nextNodes) := by
  obtain ⟨h₁, hplan, hjoin, htype⟩ := materialize_ok (q := q) (a := a) h
  unfold analyzeSeveral
  dsimp only
  split
  · next hj =>
    exact ⟨hjoin (htype.symm.trans hj), [], (List.append_nil _).trans hplan.symm⟩
  · obtain ⟨h₂, hp, hsink⟩ := pushMaterializing_ok (q := q) h₁ (a := a) (by rw [hplan]; exact ha)
      (a.materializedSink q s)
    rw [hplan] at hp
    have hread : Readable sources (before ++
        (a.pushMaterializing q (a.materialize q s) (a.materializedSink q s)).physicalPlanToOutput)
        (a.materializedSink q s).name := Readable.of_sink hsink
    have h₃ : PlanOk sources named before
        (a.pushMaterializing q (a.materialize q s) (a.materializedSink q s)) := by
      refine h₂.renamed fun c n hn => ?_
      obtain hn | ⟨-, rfl⟩ := hn
      · exact .inl hn
      · obtain ⟨b, hb, he⟩ := hsink
        exact .inr ⟨b, List.mem_append_right _ hb, by rw [he]; rfl⟩
    split
    · obtain ⟨h₄, he⟩ := updateSourceSets_ok (a := a) (q := q) h₃
        (some (a.materializedSink q s, a.curNode)) fun e he => by
          rw [← Option.some.inj he]
          exact hread
      refine ⟨h₄, ?_⟩
      rw [he]
      exact hp
    · refine ⟨h₃.congr rfl rfl rfl rfl rfl rfl fun _ => rfl, hp, fun a' ha' => ?_⟩
      obtain ⟨nextNode, -, rfl⟩ := List.mem_map.mp ha'
      exact hread

/-- **One call.** -/
theorem analyzeNode_ok (h : PlanOk sources named before s)
    (ha : a.Ok sources (before ++ s.physicalPlanToOutput)) {o : AnalyzeOutcome}
    (ho : a.analyzeNode q s = some o) : OutcomeOk sources named before s o := by
  unfold analyzeNode at ho
  dsimp only at ho
  -- the policy does not matter
  generalize ha' : (if (a.myComputation s).allocatorPolicy ≠ .defaultAllocator then
    { a with myPolicy := (a.myComputation s).allocatorPolicy } else a) = a' at ho
  have hok : a'.Ok sources (before ++ s.physicalPlanToOutput) := by
    rw [← ha']
    split
    · exact ha
    · exact ha
  split at ho
  · obtain ⟨s', hs', rfl⟩ := Option.map_eq_some_iff.mp ho
    exact analyzeSink_ok h hok hs'
  · next nextNode _ =>
    split at ho
    · cases ho
    · split at ho
      · rw [← Option.some.inj ho]
        exact analyzeAggregate_ok h hok nextNode
      · rw [← Option.some.inj ho]
        unfold analyzeJoin
        split
        · next ht => exact analyzeProbe_ok h hok ht nextNode
        · exact analyzeBuild_ok h hok
      · rw [← Option.some.inj ho]
        refine ⟨h.congr rfl rfl rfl rfl rfl rfl fun _ => rfl, List.prefix_rfl, fun b hb => ?_⟩
        obtain rfl := List.mem_singleton.mp hb
        exact hok
  · rw [← Option.some.inj ho]
    exact analyzeSeveral_ok h hok _

end
end AnalyzeArgs

/-! ## The recursion, and the calls for the sources -/

namespace TCAPAnalyzer
open AnalyzeArgs

section
variable {q : Query} {sources : List String} {named : String → String → Prop}
  {before : List AbstractJobStage} {s : TCAPAnalyzer}

theorem callAll_ok {f : AnalyzeArgs → TCAPAnalyzer → Option (Bool × TCAPAnalyzer)}
    (hf : ∀ a s r, PlanOk sources named before s → a.Ok sources (before ++ s.physicalPlanToOutput) →
      f a s = some r → PlanOk sources named before r.2 ∧
        s.physicalPlanToOutput <+: r.2.physicalPlanToOutput) (l : List AnalyzeArgs) :
    ∀ s r, PlanOk sources named before s →
      (∀ a ∈ l, a.Ok sources (before ++ s.physicalPlanToOutput)) → callAll f l s = some r →
      PlanOk sources named before r.2 ∧ s.physicalPlanToOutput <+: r.2.physicalPlanToOutput := by
  induction l with
  | nil =>
    intro s r h _ hr
    rw [← Option.some.inj hr]
    exact ⟨h, List.prefix_rfl⟩
  | cons a l ih =>
    intro s r h ha hr
    obtain ⟨⟨b, s₁⟩, h₁, hr⟩ := Option.bind_eq_some_iff.mp hr
    obtain ⟨hs₁, hp⟩ := hf a s (b, s₁) h (ha a List.mem_cons_self) h₁
    cases b with
    | false =>
      rw [← Option.some.inj hr]
      exact ⟨hs₁, hp⟩
    | true =>
      obtain ⟨h₂, hp'⟩ := ih s₁ r hs₁
        (fun a' ha' => Readable.of_prefix (ha a' (List.mem_cons_of_mem _ ha')) hp) hr
      exact ⟨h₂, hp.trans hp'⟩

/-- **The recursion.** -/
theorem analyze_ok (fuel : Nat) : ∀ (a : AnalyzeArgs) (s : TCAPAnalyzer) (r : Bool × TCAPAnalyzer),
    PlanOk sources named before s → a.Ok sources (before ++ s.physicalPlanToOutput) →
    analyze q fuel a s = some r → PlanOk sources named before r.2 ∧
      s.physicalPlanToOutput <+: r.2.physicalPlanToOutput := by
  induction fuel with
  | zero =>
    intro a s r _ _ hr
    cases hr
  | succ fuel ih =>
    intro a s r h ha hr
    obtain ⟨o, ho, hr⟩ := Option.bind_eq_some_iff.mp hr
    have hok := analyzeNode_ok h ha ho
    cases o with
    | ret b s' =>
      rw [← Option.some.inj hr]
      exact hok
    | calls l s' =>
      obtain ⟨h₁, hp, hl⟩ := hok
      obtain ⟨h₂, hp'⟩ := callAll_ok ih l s' r h₁ hl hr
      exact ⟨h₂, hp.trans hp'⟩

theorem analyzeConsumer_ok {curSource curNode : AtomicComputation} {set : SetIdentifier}
    {r : Bool × TCAPAnalyzer} (h : PlanOk sources named before s)
    (hset : Readable sources (before ++ s.physicalPlanToOutput) set.name)
    (hr : analyzeConsumer q curSource set curNode s = some r) : PlanOk sources named before r.2 ∧
      s.physicalPlanToOutput <+: r.2.physicalPlanToOutput := by
  have h' : PlanOk sources named before
      { s with buildTheseTupleSets := [curSource.outputName] } :=
    h.congr rfl rfl rfl rfl rfl rfl fun _ => rfl
  have ha : (sourceArgs curSource set curNode).Ok sources (before ++ s.physicalPlanToOutput) := hset
  exact analyze_ok _ _ { s with buildTheseTupleSets := [curSource.outputName] } r h' ha hr

theorem analyzeConsumers_ok {curSource : AtomicComputation} {set : SetIdentifier}
    (l : List AtomicComputation) : ∀ (s : TCAPAnalyzer) (r : Bool × TCAPAnalyzer),
    PlanOk sources named before s →
    Readable sources (before ++ s.physicalPlanToOutput) set.name →
    analyzeConsumers q curSource set l s = some r → PlanOk sources named before r.2 := by
  induction l with
  | nil =>
    intro s r h _ hr
    rw [← Option.some.inj hr]
    exact h
  | cons curNode l ih =>
    intro s r h hset hr
    obtain ⟨⟨b, s₁⟩, h₁, hr⟩ := Option.bind_eq_some_iff.mp hr
    obtain ⟨hs₁, hp⟩ := analyzeConsumer_ok h hset h₁
    cases b with
    | false =>
      rw [← Option.some.inj hr]
      exact hs₁
    | true => exact ih s₁ r hs₁ (Readable.of_prefix hset hp) hr

/-- a computation that a scan names has its set among the sources, unless a stage has written it -/
theorem analyzeSource_ok {curSource : AtomicComputation} {s' : TCAPAnalyzer}
    (h : PlanOk sources named before s)
    (hsource : ∀ n, named curSource.computationName n → n ∈ sources)
    (hs : s.analyzeSource q curSource = some s') : PlanOk sources named before s' := by
  unfold analyzeSource at hs
  dsimp only at hs
  split at hs
  · obtain ⟨r, hr, rfl⟩ := Option.map_eq_some_iff.mp hs
    refine analyzeConsumers_ok _ s r h ?_ hr
    obtain hn | hb := h.computations curSource.computationName
    · exact .inl (hsource _ hn)
    · exact .inr hb
  · cases hs

theorem getNextStagesOptimized_ok {curSource : AtomicComputation} {set : SetIdentifier} {i : Nat}
    {r : Bool × TCAPAnalyzer} (h : PlanOk sources named before s)
    (hset : Readable sources (before ++ s.physicalPlanToOutput) set.name)
    (hr : s.getNextStagesOptimized q curSource set i = some r) :
    PlanOk sources named before r.2 := by
  unfold getNextStagesOptimized at hr
  split at hr
  · obtain ⟨r', hr', rfl⟩ := Option.map_eq_some_iff.mp hr
    exact (analyzeConsumer_ok h hset hr').1
  · rw [← Option.some.inj hr]
    exact h

theorem planSource_ok {sourceName : String} {s' : TCAPAnalyzer} (h : PlanOk sources named before s)
    (hs : s.planSource q sourceName = some s') : PlanOk sources named before s' := by
  unfold planSource at hs
  split at hs
  · next set node _ hset _ =>
    obtain ⟨⟨b, s₁⟩, h₁, rfl⟩ := Option.map_eq_some_iff.mp hs
    have hs₁ : PlanOk sources named before s₁ :=
      getNextStagesOptimized_ok h (h.sets _ _ hset) h₁
    dsimp only
    split
    · exact hs₁.congr rfl rfl rfl rfl rfl rfl fun _ => rfl
    · split
      · exact hs₁
      · exact (removeSource_ok hs₁ sourceName).1
  · cases hs

/-! ## Runs -/

/-- the names of the sets that are scanned -/
def sourceNames (q : Query) (computations : String → Computation) : List String :=
  (scans q.plan).map fun a => (computations a.computationName).setId.name

/-- the names that the sets of the computations have at first -/
def firstName (computations : String → Computation) (c n : String) : Prop :=
  n = (computations c).setId.name

section
variable {computations : String → Computation} {cost : Option (WithTop Nat)} {exactSize : Nat}

theorem start_ok : PlanOk sources (firstName computations) [] (start computations cost exactSize) := by
  refine ⟨Justified.nil, fun b hb => ?_, fun m o x hm => ?_, fun o ho => ?_, fun o ho => ?_,
    fun n set hn => ?_, fun _ => .inl rfl⟩
  · cases hb
  · cases hm
  · cases ho
  · cases ho
  · cases hn

theorem addScan_ok {curSource : AtomicComputation} {s' : TCAPAnalyzer}
    (h : PlanOk sources named before s)
    (hsource : (s.computations curSource.computationName).setId.name ∈ sources)
    (hs : s.addScan curSource = some s') :
    PlanOk sources named before s' ∧ s'.computations = s.computations := by
  unfold addScan at hs
  dsimp only at hs
  split at hs
  · split at hs
    · rw [← Option.some.inj hs]
      exact ⟨h.congr rfl rfl rfl rfl rfl rfl fun _ => rfl, rfl⟩
    · rw [← Option.some.inj hs]
      refine ⟨⟨h.stages, h.ids, h.hashSets, h.traversed, h.outputs, fun n set hn => ?_,
        h.computations⟩, rfl⟩
      have hn : Function.update s.curSourceSets
        (s.computations curSource.computationName).setId.name
        (some (s.computations curSource.computationName).setId) n = some set := hn
      by_cases he : n = (s.computations curSource.computationName).setId.name
      · rw [he, Function.update_self] at hn
        rw [← Option.some.inj hn]
        exact .inl hsource
      · rw [Function.update_of_ne he] at hn
        exact h.sets n set hn
  · cases hs

theorem create_ok {s₀ : TCAPAnalyzer} (hs : create q computations cost exactSize = some s₀) :
    PlanOk (sourceNames q computations) (firstName computations) [] s₀ := by
  unfold create at hs
  dsimp only at hs
  split at hs
  · -- a scan does not change the computations
    have key : ∀ (l : List AtomicComputation) (s : TCAPAnalyzer), l ⊆ scans q.plan →
        PlanOk (sourceNames q computations) (firstName computations) [] s →
        s.computations = computations → l.foldlM addScan s = some s₀ →
        PlanOk (sourceNames q computations) (firstName computations) [] s₀ := by
      intro l
      induction l with
      | nil =>
        intro s _ h _ hl
        rw [← Option.some.inj hl]
        exact h
      | cons a l ih =>
        intro s hsub h hc hl
        obtain ⟨s₁, h₁, hl⟩ := Option.bind_eq_some_iff.mp hl
        obtain ⟨hs₁, hc₁⟩ := addScan_ok h (by
          rw [hc]
          exact List.mem_map_of_mem (hsub List.mem_cons_self)) h₁
        exact ih s₁ (fun b hb => hsub (List.mem_cons_of_mem _ hb)) hs₁ (hc₁.trans hc) hl
    exact key _ _ (List.Subset.refl _) start_ok rfl hs
  · rw [← Option.some.inj hs]
    exact start_ok

/-- the stages are handed out -/
theorem PlanOk.schedule (h : PlanOk sources named before s) :
    PlanOk sources named (before ++ s.physicalPlanToOutput)
      { s with physicalPlanToOutput := [], interGlobalSets := [] } := by
  have hnil : before ++ s.physicalPlanToOutput =
      (before ++ s.physicalPlanToOutput) ++ [] := (List.append_nil _).symm
  refine ⟨?_, ?_, ?_, h.traversed, h.outputs, ?_, ?_⟩
  · exact hnil ▸ h.stages
  · exact hnil ▸ h.ids
  · exact hnil ▸ h.hashSets
  · exact hnil ▸ h.sets
  · exact hnil ▸ h.computations

theorem planStep_ok {x y : List AbstractJobStage × TCAPAnalyzer} {op : PlanOp}
    (h : PlanOk (sourceNames q computations) (firstName computations) x.1 x.2)
    (hy : planStep q x op = some y) :
    PlanOk (sourceNames q computations) (firstName computations) y.1 y.2 := by
  cases op with
  | visit curSource =>
    simp only [planStep] at hy
    split at hy
    · next hc =>
      obtain ⟨s', hs', rfl⟩ := Option.map_eq_some_iff.mp hy
      refine analyzeSource_ok h (fun n hn => ?_) hs'
      rw [hn]
      exact List.mem_map_of_mem hc.2
    · cases hy
  | pick sourceName cost exactSize =>
    simp only [planStep] at hy
    split at hy
    · obtain ⟨s', hs', rfl⟩ := Option.map_eq_some_iff.mp hy
      have h' : PlanOk (sourceNames q computations) (firstName computations) x.1
          { x.2 with
            costOfCurSource := some cost, exactSizeOfCurSource := exactSize
            curSourceSetName := sourceName } := h.congr rfl rfl rfl rfl rfl rfl fun _ => rfl
      exact planSource_ok h' hs'
    · cases hy
  | schedule =>
    rw [← Option.some.inj hy]
    exact PlanOk.schedule h

/-- **The stages of every run are in order.** -/
theorem stagesOk_of_reach {s₀ : TCAPAnalyzer} {x : List AbstractJobStage × TCAPAnalyzer}
    (h₀ : create q computations cost exactSize = some s₀)
    (hx : Reach (planStep q) (fun _ _ => True) ([], s₀) x) :
    Justified (StageOk AbstractJobStage.builds (sourceNames q computations))
      (x.1 ++ x.2.physicalPlanToOutput) := by
  have hinv : PlanOk (sourceNames q computations) (firstName computations) x.1 x.2 :=
    hx.inv (P := fun x => PlanOk (sourceNames q computations) (firstName computations) x.1 x.2)
      (create_ok h₀) fun t _ u ht _ hu => planStep_ok ht hu
  exact hinv.stages

end
end

/-! ## A join of two sets that are partitioned for it -/

def localJoinPlan : List AtomicComputation :=
  [⟨.scan, "a", "A", "", ""⟩, ⟨.scan, "b", "B", "", ""⟩, ⟨.joinSets, "j", "J", "A", "B"⟩,
    ⟨.writeSet, "w", "W", "J", ""⟩]

theorem localJoinPlan_acyclic : Acyclic localJoinPlan := by
  refine ⟨fun n => if n = "W" then 2 else if n = "J" then 1 else 0, fun n => ?_, by decide +kernel⟩
  show (if n = "W" then 2 else if n = "J" then 1 else 0) ≤ 4
  split
  · decide
  · split
    · decide
    · decide

def localJoinComputations (c : String) : Computation :=
  if c = "j" then { Computation.ofType .joinComp "" with sources := [("db", "a"), ("db", "b")] }
  else Computation.ofType (if c = "w" then .writeUserSet else .scanUserSet) c

def localJoinQuery : Query :=
  { jobId := "job", plan := localJoinPlan, pageSize := 1, shufflePageSize := 1
    broadcastPageSize := 1, numNodesInCluster := 1, dynamicPlanningOrNot := true
    matchSourceWithQuery := fun _ _ _ => (true, "c", "l") }

/-- one input builds the hash table in its pipeline, the other one probes it -/
theorem localJoin_run : ∃ (s₀ : TCAPAnalyzer) (x : List AbstractJobStage × TCAPAnalyzer),
    create localJoinQuery localJoinComputations none 0 = some s₀ ∧
    Reach (planStep localJoinQuery) (fun _ _ => True) ([], s₀) x ∧
    (x.1 ++ x.2.physicalPlanToOutput).map (fun b => (b.hashSetsToProbe, b.buildsHashSet)) =
      [([], none), ([("J", "job:J_repartitionData")], none)] := by
  have hrun : ((create localJoinQuery localJoinComputations none 0).bind fun s₀ =>
      (run (guarded (planStep localJoinQuery) fun _ _ => True) ([], s₀)
        [.pick "db:a" ((20000 : Nat) : WithTop Nat) 1, .schedule,
          .pick "db:b" ((20000 : Nat) : WithTop Nat) 1]).map
      fun x => (x.1 ++ x.2.physicalPlanToOutput).map fun b => (b.hashSetsToProbe, b.buildsHashSet)) =
      some [([], none), ([("J", "job:J_repartitionData")], none)] := by
    decide +kernel
  obtain ⟨s₀, h₀, hrun⟩ := Option.bind_eq_some_iff.mp hrun
  obtain ⟨x, hx, hobs⟩ := Option.map_eq_some_iff.mp hrun
  exact ⟨s₀, x, h₀, Reach.of_run _ hx, hobs⟩

/-- both stages are in order -/
theorem stagesOk_localJoin : ∃ (s₀ : TCAPAnalyzer) (x : List AbstractJobStage × TCAPAnalyzer),
    create localJoinQuery localJoinComputations none 0 = some s₀ ∧
    Justified (StageOk AbstractJobStage.builds (sourceNames localJoinQuery localJoinComputations))
      (x.1 ++ x.2.physicalPlanToOutput) ∧ (x.1 ++ x.2.physicalPlanToOutput).length = 2 := by
  obtain ⟨s₀, x, h₀, hx, hobs⟩ := localJoin_run
  refine ⟨s₀, x, h₀, stagesOk_of_reach h₀ hx, ?_⟩
  rw [← List.length_map, hobs]
  rfl

/-- **No join stage builds the hash table of a local join.** -/
theorem stagesOk_not_buildsHashSet : ¬ ∀ (q : Query) (computations : String → Computation)
    (cost : Option (WithTop Nat)) (exactSize : Nat) (s₀ : TCAPAnalyzer)
    (x : List AbstractJobStage × TCAPAnalyzer), Acyclic q.plan →
    create q computations cost exactSize = some s₀ →
    Reach (planStep q) (fun _ _ => True) ([], s₀) x →
    Justified (StageOk AbstractJobStage.buildsHashSet (sourceNames q computations))
      (x.1 ++ x.2.physicalPlanToOutput) := by
  intro hall
  obtain ⟨s₀, x, h₀, hx, hobs⟩ := localJoin_run
  have hok := hall _ _ _ _ s₀ x localJoinPlan_acyclic h₀ hx
  obtain ⟨b₀, l, hl, hb₀, hobs⟩ := List.map_eq_cons_iff.mp hobs
  obtain ⟨b₁, l, rfl, hb₁, -⟩ := List.map_eq_cons_iff.mp hobs
  -- the second stage probes, and the first one is not of a join
  obtain ⟨b, hb, he⟩ := (hok [b₀] b₁ l (by rw [hl]; rfl)).built
    ("J", "job:J_repartitionData") (by
      rw [(Prod.mk.inj hb₁).1]
      exact List.mem_singleton.mpr rfl)
  obtain rfl := List.mem_singleton.mp hb
  rw [(Prod.mk.inj hb₀).2] at he
  cases he

end TCAPAnalyzer
end Netsdb
