import Netsdb.Planning.QueryScheduler

/-!
# The way of a pipeline (`TCAPAnalyzer::analyze`)

* `analyze_fuel`     a plan without cycles is not too deep for the recursion;
* `walk`             where a call that plans one pipeline ends: the nodes with one consumer are passed,
                     up to an aggregation or a join that is not marked;
* `Along`            what the planner is on the way;
* `analyze_walk`     a dynamic call does what it does at the end of its way.
-/

set_option linter.unusedSectionVars false

namespace Netsdb
open TCAPAnalyzer AnalyzeArgs

/-! ## The depth of the recursion -/

section
variable {q : Query} {s s' : TCAPAnalyzer} {a : AnalyzeArgs} {l : List AnalyzeArgs}

/-- a call goes on at the consumers of its node -/
theorem analyzeNode_calls (h : a.analyzeNode q s = some (.calls l s')) {a' : AnalyzeArgs}
    (ha' : a' ∈ l) : a'.curNode ∈ consumers q.plan a.curNode.outputName := by
  have hsingle : ∀ {b : AnalyzeArgs} {t t' : TCAPAnalyzer},
      AnalyzeOutcome.calls [b] t = .calls l t' → a' = b := by
    intro b t t' he
    rw [← (AnalyzeOutcome.calls.inj he).1] at ha'
    exact List.mem_singleton.mp ha'
  unfold analyzeNode at h
  dsimp only at h
  generalize hp : (if (a.myComputation s).allocatorPolicy ≠ .defaultAllocator then
    { a with myPolicy := (a.myComputation s).allocatorPolicy } else a) = b at h
  have hb : b.curNode = a.curNode := by
    rw [← hp]
    split
    · rfl
    · rfl
  rw [hb] at h
  split at h
  · obtain ⟨t, -, ht⟩ := Option.map_eq_some_iff.mp h
    cases ht
  · next nextNode hnext =>
    rw [hnext]
    have hmem : a'.curNode = nextNode → a'.curNode ∈ [nextNode] := fun he =>
      List.mem_singleton.mpr he
    split at h
    · cases h
    · split at h
      · have h := Option.some.inj h
        unfold analyzeAggregate at h
        dsimp only at h
        split at h
        · cases h
        · exact hmem (by rw [hsingle h]; rfl)
      · have h := Option.some.inj h
        unfold analyzeJoin at h
        split at h
        · unfold analyzeProbe at h
          split at h
          · split at h
            · exact hmem (by rw [hsingle h]; rfl)
            · exact hmem (by rw [hsingle h]; rfl)
          · exact hmem (by rw [hsingle h]; rfl)
        · unfold analyzeBuild at h
          split at h
          · cases h
          · split at h
            · cases h
            · cases h
      · exact hmem (by rw [hsingle (Option.some.inj h)])
  · have h := Option.some.inj h
    unfold analyzeSeveral at h
    dsimp only at h
    split at h
    · cases h
    · split at h
      · cases h
      · rw [← (AnalyzeOutcome.calls.inj h).1] at ha'
        obtain ⟨nextNode, hn, rfl⟩ := List.mem_map.mp ha'
        exact hn

theorem callAll_congr {f g : AnalyzeArgs → TCAPAnalyzer → Option (Bool × TCAPAnalyzer)}
    (hfg : ∀ a ∈ l, f a = g a) (s : TCAPAnalyzer) : callAll f l s = callAll g l s := by
  induction l generalizing s with
  | nil => rfl
  | cons a l ih =>
    unfold callAll
    rw [hfg a List.mem_cons_self]
    apply congrArg
    funext r
    obtain ⟨b, s'⟩ := r
    dsimp only
    rw [ih (fun b hb => hfg b (List.mem_cons_of_mem _ hb))]

/-- more fuel is not needed for a node from which the plan is not deeper -/
theorem analyze_succ {rank : String → Nat} (hrank : ∀ n, rank n ≤ q.plan.length)
    (hlt : ∀ a ∈ q.plan, ∀ c ∈ consumers q.plan a.outputName, rank a.outputName < rank c.outputName)
    (fuel : Nat) : ∀ a : AnalyzeArgs, a.curNode ∈ q.plan →
    q.plan.length < fuel + rank a.curNode.outputName → analyze q (fuel + 1) a = analyze q fuel a := by
  induction fuel with
  | zero =>
    intro a _ hf
    have := hrank a.curNode.outputName
    omega
  | succ fuel ih =>
    intro a ha hf
    funext s
    show (a.analyzeNode q s).bind _ = (a.analyzeNode q s).bind _
    cases ho : a.analyzeNode q s with
    | none => rfl
    | some o =>
      cases o with
      | ret b s' => rfl
      | calls l s' =>
        apply callAll_congr
        intro a' ha'
        have hc := analyzeNode_calls ho ha'
        have := hlt a.curNode ha a'.curNode hc
        exact ih a' (mem_consumers.mp hc).1 (by omega)

/-- **The fuel is enough**: with more of it the call for a consumer is the same -/
theorem analyze_fuel (h : Acyclic q.plan) (ha : a.curNode ∈ q.plan) (n : Nat) :
    analyze q (q.plan.length + 2 + n) a s = analyze q (q.plan.length + 2) a s := by
  obtain ⟨rank, hrank, hlt⟩ := h
  induction n with
  | zero => rfl
  | succ n ih => rw [← Nat.add_assoc, analyze_succ hrank hlt _ a ha (by omega), ih]

end

/-! ## The way -/

/-- where a pipeline ends -/
structure PipelineEnd where
  node : AtomicComputation
  /-- a join has been passed -/
  isProbing : Bool
  /-- a stage has been pushed on the way -/
  emitted : Bool

/-- a join that is marked is probed from partitions: the pipeline is cut before it -/
def cutsProbe (q : Query) (s : TCAPAnalyzer) (curSource : AtomicComputation) (set : SetIdentifier)
    (node : AtomicComputation) : Bool :=
  s.partitioningLHS node.outputName && (!(q.matchSourceWithQuery curSource node (some set)).1 ||
    (s.computations node.computationName).joinType ≠ .LocalJoin)

/-- `none`: the process exits on the way -/
def walk (q : Query) (s : TCAPAnalyzer) (curSource : AtomicComputation) (set : SetIdentifier) :
    Nat → AtomicComputation → Bool → Bool → Option PipelineEnd
  | 0, _, _, _ => none
  | fuel + 1, node, isProbing, emitted =>
    match consumers q.plan node.outputName with
    | [nextNode] =>
      if (s.computations node.computationName).type = .partitionComp ∧ nextNode.type ≠ .partition then
        none
      else
        match node.type with
        | .aggregate => some { node, isProbing, emitted }
        | .joinSets =>
          if s.traversed node.outputName then
            walk q s curSource set fuel nextNode true (emitted || cutsProbe q s curSource set node)
          else some { node, isProbing, emitted }
        | _ => walk q s curSource set fuel nextNode isProbing emitted
    | _ => some { node, isProbing, emitted }

/-- a pipeline does not go past the node -/
def Ends (q : Query) (s : TCAPAnalyzer) (node : AtomicComputation) : Prop :=
  ∀ nextNode, consumers q.plan node.outputName = [nextNode] →
    ¬ ((s.computations node.computationName).type = .partitionComp ∧ nextNode.type ≠ .partition) ∧
      (node.type = .aggregate ∨ (node.type = .joinSets ∧ s.traversed node.outputName = false))

/-- `t` is the planner on the way of a pipeline that was `s` at its start -/
structure Along (s t : TCAPAnalyzer) (isProbing emitted : Bool) : Prop where
  traversed : t.traversed = s.traversed
  costOfCurSource : t.costOfCurSource = s.costOfCurSource
  type : ∀ c, (t.computations c).type = (s.computations c).type
  materializeOutput : ∀ c,
    (t.computations c).materializeOutput = (s.computations c).materializeOutput
  /-- without a stage, only the joins to be probed have been noted -/
  quiet : emitted = false → ∃ l, (l = [] ↔ isProbing = false) ∧ t = { s with
    buildTheseTupleSets := t.buildTheseTupleSets
    outputForJoinSets := s.outputForJoinSets ++ l }
  loud : emitted = true → isProbing = true ∧ s.jobStageId < t.jobStageId ∧
    s.physicalPlanToOutput.length < t.physicalPlanToOutput.length

section
variable {q : Query} {s t : TCAPAnalyzer} {a : AnalyzeArgs} {isProbing emitted : Bool}

theorem Along.start (l : List String) : Along s { s with buildTheseTupleSets := l } false false :=
  ⟨rfl, rfl, fun _ => rfl, fun _ => rfl, fun _ => ⟨[], by simp, by rw [List.append_nil]⟩, nofun⟩

theorem Along.pushTupleSet (h : Along s t isProbing emitted) (name : String) :
    Along s (t.pushTupleSet name) isProbing emitted := by
  refine ⟨h.traversed, h.costOfCurSource, h.type, h.materializeOutput, fun he => ?_, h.loud⟩
  obtain ⟨l, hl, ht⟩ := h.quiet he
  refine ⟨l, hl, ?_⟩
  rw [ht]
  rfl

theorem Along.passJoin (h : Along s t isProbing emitted) :
    Along s (a.passJoin t) true emitted := by
  refine ⟨h.traversed, h.costOfCurSource, h.type, h.materializeOutput, fun he => ?_, fun he => ?_⟩
  · obtain ⟨l, -, ht⟩ := h.quiet he
    refine ⟨l ++ [a.curNode.outputName], by simp, ?_⟩
    rw [ht, ← List.append_assoc]
    rfl
  · exact ⟨rfl, (h.loud he).2⟩

/-- a computation keeps its type when it is set to partition its inputs -/
theorem setHashPartitionedJoin_computations (t : TCAPAnalyzer) (n c : String) :
    ((t.setHashPartitionedJoin n).computations c).type = (t.computations c).type ∧
      ((t.setHashPartitionedJoin n).computations c).materializeOutput =
        (t.computations c).materializeOutput := by
  unfold setHashPartitionedJoin modifyComputation
  dsimp only
  by_cases hc : c = n
  · rw [hc, Function.update_self]
    split
    · exact ⟨rfl, rfl⟩
    · exact ⟨rfl, rfl⟩
  · rw [Function.update_of_ne hc]
    exact ⟨rfl, rfl⟩

theorem Along.cut (h : Along s t isProbing emitted) :
    Along s (a.pushHashPartitionedProbe q t) true true := by
  refine ⟨h.traversed, h.costOfCurSource, fun c => ?_, fun c => ?_, nofun, fun _ => ?_⟩
  · rw [← h.type]
    exact (setHashPartitionedJoin_computations t a.mySpecifier c).1
  · rw [← h.materializeOutput]
    exact (setHashPartitionedJoin_computations t a.mySpecifier c).2
  · have hid : s.jobStageId ≤ t.jobStageId ∧
        s.physicalPlanToOutput.length ≤ t.physicalPlanToOutput.length := by
      cases emitted with
      | false =>
        obtain ⟨l, -, ht⟩ := h.quiet rfl
        rw [ht]
        exact ⟨Nat.le_refl _, Nat.le_refl _⟩
      | true => exact ⟨Nat.le_of_lt (h.loud rfl).2.1, Nat.le_of_lt (h.loud rfl).2.2⟩
    refine ⟨rfl, Nat.lt_succ_of_le hid.1, ?_⟩
    show _ < (t.physicalPlanToOutput ++ [_]).length
    rw [List.length_append]
    exact Nat.lt_succ_of_le hid.2

/-! ## One node of the way -/

/-- the call has the same way, whatever its policy -/
structure SameWay (a b : AnalyzeArgs) : Prop where
  curNode : b.curNode = a.curNode
  isProbing : b.isProbing = a.isProbing
  curSource : b.curSource = a.curSource
  curInputSetIdentifier : b.curInputSetIdentifier = a.curInputSetIdentifier

theorem SameWay.policy (a : AnalyzeArgs) (policy : AllocatorPolicy) (c : Prop) [Decidable c] :
    SameWay a (if c then { a with myPolicy := policy } else a) := by
  split
  · exact ⟨rfl, rfl, rfl, rfl⟩
  · exact ⟨rfl, rfl, rfl, rfl⟩

/-- a node that is no join and no aggregation -/
theorem analyzeNode_plain {nextNode : AtomicComputation}
    (hnext : consumers q.plan a.curNode.outputName = [nextNode])
    (hx : ¬ ((a.myComputation t).type = .partitionComp ∧ nextNode.type ≠ .partition))
    (hagg : a.curNode.type ≠ .aggregate) (hjoin : a.curNode.type ≠ .joinSets) :
    ∃ a', a.analyzeNode q t = some (.calls [a'] (t.pushTupleSet a.curNode.outputName)) ∧
      SameWay { a with curNode := nextNode } a' := by
  unfold analyzeNode
  dsimp only
  have hb := SameWay.policy a (a.myComputation t).allocatorPolicy
    ((a.myComputation t).allocatorPolicy ≠ .defaultAllocator)
  generalize (if (a.myComputation t).allocatorPolicy ≠ .defaultAllocator then
    { a with myPolicy := (a.myComputation t).allocatorPolicy } else a) = b at hb
  rw [hb.curNode, hnext]
  dsimp only
  rw [if_neg hx]
  split
  · next h => exact absurd h hagg
  · next h => exact absurd h hjoin
  · exact ⟨_, rfl, ⟨rfl, hb.isProbing, hb.curSource, hb.curInputSetIdentifier⟩⟩

/-- a join that is marked -/
theorem analyzeNode_probe {nextNode : AtomicComputation}
    (hnext : consumers q.plan a.curNode.outputName = [nextNode])
    (hx : ¬ ((a.myComputation t).type = .partitionComp ∧ nextNode.type ≠ .partition))
    (hjoin : a.curNode.type = .joinSets) (ht : t.traversed a.curNode.outputName = true) :
    ∃ a' b, SameWay a b ∧ a'.curNode = nextNode ∧ a'.isProbing = true ∧
      (if cutsProbe q t a.curSource a.curInputSetIdentifier a.curNode then
        a.analyzeNode q t = some (.calls [a'] (b.pushHashPartitionedProbe q t))
      else
        a.analyzeNode q t = some (.calls [a'] (b.passJoin t)) ∧ a'.curSource = a.curSource ∧
          a'.curInputSetIdentifier = a.curInputSetIdentifier) := by
  unfold analyzeNode
  dsimp only
  have hb := SameWay.policy a (a.myComputation t).allocatorPolicy
    ((a.myComputation t).allocatorPolicy ≠ .defaultAllocator)
  generalize (if (a.myComputation t).allocatorPolicy ≠ .defaultAllocator then
    { a with myPolicy := (a.myComputation t).allocatorPolicy } else a) = b at hb
  rw [hb.curNode, hnext]
  dsimp only
  rw [if_neg hx, hjoin]
  dsimp only
  unfold analyzeJoin
  rw [hb.curNode, if_pos ht]
  have hcut : cutsProbe q t a.curSource a.curInputSetIdentifier a.curNode =
      (t.partitioningLHS b.curNode.outputName && (!(b.matchSource q).1 ||
        (b.myComputation t).joinType ≠ .LocalJoin)) := by
    unfold cutsProbe matchSource AnalyzeArgs.myComputation AnalyzeArgs.mySpecifier
    rw [hb.curNode, hb.curSource, hb.curInputSetIdentifier]
  rw [hcut]
  unfold analyzeProbe
  cases hp : t.partitioningLHS b.curNode.outputName with
  | false =>
    refine ⟨_, b, hb, ?_, ?_, rfl, hb.curSource, hb.curInputSetIdentifier⟩
    · rfl
    · rfl
  | true =>
    cases (!(b.matchSource q).1 || (b.myComputation t).joinType ≠ .LocalJoin : Bool) with
    | false =>
      refine ⟨_, b, hb, ?_, ?_, rfl, hb.curSource, hb.curInputSetIdentifier⟩
      · rfl
      · rfl
    | true =>
      refine ⟨_, b, hb, ?_, ?_, rfl⟩
      · rfl
      · rfl

theorem analyzeNode_exit {nextNode : AtomicComputation}
    (hnext : consumers q.plan a.curNode.outputName = [nextNode])
    (hx : (a.myComputation t).type = .partitionComp ∧ nextNode.type ≠ .partition) :
    a.analyzeNode q t = none := by
  unfold analyzeNode
  dsimp only
  have hb := SameWay.policy a (a.myComputation t).allocatorPolicy
    ((a.myComputation t).allocatorPolicy ≠ .defaultAllocator)
  generalize (if (a.myComputation t).allocatorPolicy ≠ .defaultAllocator then
    { a with myPolicy := (a.myComputation t).allocatorPolicy } else a) = b at hb
  rw [hb.curNode, hnext]
  dsimp only
  rw [if_pos hx]

theorem analyze_single {fuel : Nat} {a' : AnalyzeArgs} {t' : TCAPAnalyzer}
    (h : a.analyzeNode q t = some (.calls [a'] t')) :
    analyze q (fuel + 1) a t = analyze q fuel a' t' := by
  show (a.analyzeNode q t).bind _ = _
  rw [h]
  show (analyze q fuel a' t').bind _ = _
  cases analyze q fuel a' t' with
  | none => rfl
  | some r =>
    obtain ⟨b, u⟩ := r
    cases b with
    | false => rfl
    | true => rfl

/-- the call `a` in the state `t` is at the end of the way -/
structure AtEnd (q : Query) (s : TCAPAnalyzer) (e : PipelineEnd) (a : AnalyzeArgs)
    (t : TCAPAnalyzer) : Prop where
  curNode : a.curNode = e.node
  isProbing : a.isProbing = e.isProbing
  along : Along s t e.isProbing e.emitted
  ends : Ends q s e.node

/-- as long as no stage has been pushed, the pipeline is decided on as at its start -/
theorem Along.cutsProbe_eq (h : Along s t isProbing false) (curSource : AtomicComputation)
    (set : SetIdentifier) (node : AtomicComputation) :
    cutsProbe q t curSource set node = cutsProbe q s curSource set node := by
  obtain ⟨l, -, ht⟩ := h.quiet rfl
  rw [ht]
  rfl

/-- **A call does what it does at the end of its way.** -/
theorem analyze_walk {curSource : AtomicComputation} {set : SetIdentifier} (fuel : Nat) :
    ∀ (a : AnalyzeArgs) (t : TCAPAnalyzer) (emitted : Bool), Along s t a.isProbing emitted →
    (emitted = false → a.curSource = curSource ∧ a.curInputSetIdentifier = set) →
    (walk q s curSource set fuel a.curNode a.isProbing emitted = none →
      analyze q fuel a t = none) ∧
    ∀ e, walk q s curSource set fuel a.curNode a.isProbing emitted = some e →
      ∃ n a' t', analyze q fuel a t = analyze q (n + 1) a' t' ∧ AtEnd q s e a' t' := by
  induction fuel with
  | zero =>
    intro a t emitted _ _
    exact ⟨fun _ => rfl, nofun⟩
  | succ fuel ih =>
    intro a t emitted h hsource
    -- the way ends here
    have hend : Ends q s a.curNode →
        walk q s curSource set (fuel + 1) a.curNode a.isProbing emitted =
          some { node := a.curNode, isProbing := a.isProbing, emitted } →
        (walk q s curSource set (fuel + 1) a.curNode a.isProbing emitted = none →
          analyze q (fuel + 1) a t = none) ∧
        ∀ e, walk q s curSource set (fuel + 1) a.curNode a.isProbing emitted = some e →
          ∃ n a' t', analyze q (fuel + 1) a t = analyze q (n + 1) a' t' ∧ AtEnd q s e a' t' := by
      intro hends hw
      rw [hw]
      refine ⟨nofun, fun e he => ?_⟩
      obtain rfl := Option.some.inj he
      exact ⟨fuel, a, t, rfl, rfl, rfl, h, hends⟩
    have htype : (a.myComputation t).type = (s.computations a.curNode.computationName).type :=
      h.type _
    cases hc : consumers q.plan a.curNode.outputName with
    | nil =>
      refine hend (fun nextNode hn => ?_) ?_
      · rw [hc] at hn
        cases hn
      · rw [walk, hc]
    | cons nextNode l =>
      cases l with
      | cons nextNode' l =>
        refine hend (fun nextNode hn => ?_) ?_
        · rw [hc] at hn
          cases hn
        · rw [walk, hc]
      | nil =>
        by_cases hx : (s.computations a.curNode.computationName).type = .partitionComp ∧
            nextNode.type ≠ .partition
        · have hw : walk q s curSource set (fuel + 1) a.curNode a.isProbing emitted = none := by
            rw [walk, hc]
            exact if_pos hx
          rw [hw]
          refine ⟨fun _ => ?_, nofun⟩
          show (a.analyzeNode q t).bind _ = none
          rw [analyzeNode_exit hc (by rw [htype]; exact hx)]
          rfl
        · have hx' : ¬ ((a.myComputation t).type = .partitionComp ∧
              nextNode.type ≠ .partition) := by
            rw [htype]
            exact hx
          by_cases hagg : a.curNode.type = .aggregate
          · refine hend (fun nextNode' hn => ?_) ?_
            · rw [hc] at hn
              obtain rfl := (List.cons.inj hn).1
              exact ⟨hx, .inl hagg⟩
            · rw [walk, hc]
              dsimp only
              rw [if_neg hx, hagg]
          · by_cases hjoin : a.curNode.type = .joinSets
            · cases htr : s.traversed a.curNode.outputName with
              | false =>
                refine hend (fun nextNode' hn => ?_) ?_
                · rw [hc] at hn
                  obtain rfl := (List.cons.inj hn).1
                  exact ⟨hx, .inr ⟨hjoin, htr⟩⟩
                · rw [walk, hc]
                  dsimp only
                  rw [if_neg hx, hjoin]
                  dsimp only
                  rw [htr]
                  rfl
              | true =>
                have hw : walk q s curSource set (fuel + 1) a.curNode a.isProbing emitted =
                    walk q s curSource set fuel nextNode true
                      (emitted || cutsProbe q s curSource set a.curNode) := by
                  rw [walk, hc]
                  dsimp only
                  rw [if_neg hx, hjoin]
                  dsimp only
                  exact if_pos htr
                rw [hw]
                obtain ⟨a', b, hb, hnode, hprobe, hstep⟩ := analyzeNode_probe hc hx' hjoin
                  (by rw [h.traversed]; exact htr)
                have hcut : emitted = false →
                    cutsProbe q t a.curSource a.curInputSetIdentifier a.curNode =
                      cutsProbe q s curSource set a.curNode := by
                  rintro rfl
                  rw [h.cutsProbe_eq, (hsource rfl).1, (hsource rfl).2]
                split at hstep
                · next hcuts =>
                  have he : (emitted || cutsProbe q s curSource set a.curNode) = true := by
                    cases emitted with
                    | true => rfl
                    | false =>
                      rw [← hcut rfl]
                      exact hcuts
                  have hnext := ih a' (b.pushHashPartitionedProbe q t) true
                    (by rw [hprobe]; exact h.cut) nofun
                  rw [hnode, hprobe] at hnext
                  rw [analyze_single hstep, he]
                  exact hnext
                · next hcuts =>
                  obtain ⟨hstep, hs₁, hs₂⟩ := hstep
                  have he : (emitted || cutsProbe q s curSource set a.curNode) = emitted := by
                    cases emitted with
                    | true => rfl
                    | false =>
                      rw [← hcut rfl]
                      exact Bool.eq_false_iff.mpr hcuts
                  rw [analyze_single hstep, he, ← hnode, ← hprobe]
                  refine ih a' (b.passJoin t) emitted (by rw [hprobe]; exact h.passJoin) fun hemitted => ?_
                  rw [hs₁, hs₂]
                  exact hsource hemitted
            · have hw : walk q s curSource set (fuel + 1) a.curNode a.isProbing emitted =
                  walk q s curSource set fuel nextNode a.isProbing emitted := by
                rw [walk, hc]
                dsimp only
                rw [if_neg hx]
                split
                · next h => exact absurd h hagg
                · next h => exact absurd h hjoin
                · rfl
              obtain ⟨a', hstep, hb⟩ := analyzeNode_plain hc hx' hagg hjoin
              rw [hw, analyze_single hstep, ← hb.isProbing,
                show nextNode = a'.curNode from hb.curNode.symm]
              refine ih a' _ emitted (by rw [hb.isProbing]; exact h.pushTupleSet _) fun hemitted => ?_
              rw [hb.curSource, hb.curInputSetIdentifier]
              exact hsource hemitted

/-! ## The end of the way -/

/-- a join that is put off: tables have been probed, and the source is not large -/
def Postponed (q : Query) (s : TCAPAnalyzer) (e : PipelineEnd) : Prop :=
  (consumers q.plan e.node.outputName).length = 1 ∧ e.node.type = .joinSets ∧
    e.isProbing = true ∧ (s.costOfCurSource.any fun cost => cost ≤ joinCostThreshold) = true

/-- a join with several consumers -/
def Refused (q : Query) (s : TCAPAnalyzer) (e : PipelineEnd) : Prop :=
  2 ≤ (consumers q.plan e.node.outputName).length ∧
    (s.computations e.node.computationName).type = .joinComp

instance (q : Query) (s : TCAPAnalyzer) (e : PipelineEnd) : Decidable (Postponed q s e) :=
  inferInstanceAs (Decidable (_ ∧ _))

instance (q : Query) (s : TCAPAnalyzer) (e : PipelineEnd) : Decidable (Refused q s e) :=
  inferInstanceAs (Decidable (_ ∧ _))

theorem removeSource_plan (t : TCAPAnalyzer) (n : String) :
    (t.removeSource n).physicalPlanToOutput = t.physicalPlanToOutput := by
  unfold removeSource
  dsimp only
  split
  · rfl
  · rfl

theorem updateSourceSets_plan (t : TCAPAnalyzer) (new : Option (SetIdentifier × AtomicComputation)) :
    (a.updateSourceSets q t new).physicalPlanToOutput = t.physicalPlanToOutput := by
  have hadd : (new.elim t fun e => t.addSource e.1 e.2).physicalPlanToOutput =
      t.physicalPlanToOutput := by
    cases new with
    | none => rfl
    | some e => rfl
  unfold AnalyzeArgs.updateSourceSets TCAPAnalyzer.updateSourceSets
  split
  · dsimp only
    split
    · split
      · exact (removeSource_plan _ _).trans hadd
      · exact hadd
    · exact hadd
  · rfl

/-- stages have been pushed, and the call returns `true` -/
def Pushes (t : TCAPAnalyzer) (r : Bool × TCAPAnalyzer) : Prop :=
  r.1 = true ∧ t.physicalPlanToOutput.length < r.2.physicalPlanToOutput.length

theorem Pushes.update {u : TCAPAnalyzer} (new : Option (SetIdentifier × AtomicComputation))
    (h : t.physicalPlanToOutput.length < u.physicalPlanToOutput.length) :
    Pushes t (true, a.updateSourceSets q u new) := by
  refine ⟨rfl, ?_⟩
  rw [updateSourceSets_plan]
  exact h

theorem pushStage_length (t : TCAPAnalyzer) (stage : AbstractJobStage) :
    t.physicalPlanToOutput.length < (t.pushStage stage).physicalPlanToOutput.length := by
  show _ < (t.physicalPlanToOutput ++ [stage]).length
  rw [List.length_append]
  exact Nat.lt_succ_self _

theorem pushAggregation_length (t : TCAPAnalyzer) (m : Bool) (n : Nat) (sink : SetIdentifier)
    (r : Bool) : t.physicalPlanToOutput.length <
      (a.pushAggregation q t m n sink r).physicalPlanToOutput.length :=
  (pushStage_length t _).trans (pushStage_length (t.pushStage _) _)

theorem analyzeSink_pushes {u : TCAPAnalyzer} (h : a.analyzeSink q t = some u) :
    Pushes t (true, u) := by
  unfold analyzeSink at h
  dsimp only at h
  split at h
  · rw [← Option.some.inj h]
    exact Pushes.update none (pushAggregation_length t _ _ _ _)
  · rw [← Option.some.inj h]
    exact Pushes.update none (pushStage_length t _)
  · rw [← Option.some.inj h]
    exact Pushes.update none (pushStage_length t _)
  · rw [← Option.some.inj h]
    exact Pushes.update none (pushStage_length t _)
  · rw [← Option.some.inj h]
    exact Pushes.update none (pushStage_length t _)
  · cases h

/-- the first input of a join that is not put off -/
theorem analyzeBuild_pushes (h : a.penalized t = false) :
    ∃ u, a.analyzeBuild q t = .ret true u ∧ Pushes t (true, u) := by
  have hdone : ∀ (u : TCAPAnalyzer) (n : String),
      t.physicalPlanToOutput.length < u.physicalPlanToOutput.length →
      ∃ u', a.buildDone q u n = .ret true u' ∧ Pushes t (true, u') := fun u n hu =>
    ⟨_, rfl, Pushes.update none hu⟩
  unfold analyzeBuild
  rw [if_neg (by rw [h]; exact Bool.false_ne_true)]
  split
  · unfold analyzePartitionedBuild
    dsimp only
    split
    · exact hdone _ _ (pushStage_length t _)
    · exact hdone _ _ ((pushStage_length t _).trans (pushStage_length (t.pushStage _) _))
  · exact hdone _ _ ((pushStage_length t _).trans (pushStage_length (t.pushStage _) _))

theorem materialize_plan (t : TCAPAnalyzer) :
    (a.materialize q t).physicalPlanToOutput = t.physicalPlanToOutput := by
  unfold materialize
  split
  · rfl
  · rfl

theorem pushMaterializing_length (t : TCAPAnalyzer) (sink : SetIdentifier) :
    t.physicalPlanToOutput.length <
      (a.pushMaterializing q t sink).physicalPlanToOutput.length := by
  unfold pushMaterializing
  dsimp only
  split
  · exact pushStage_length t _
  · exact pushAggregation_length t _ _ _ _

theorem setOutput_type (c : Computation) (d n : String) : (c.setOutput d n).type = c.type := by
  unfold Computation.setOutput
  split
  · rfl
  · rfl
  · rfl
  · rfl
  · rfl

theorem materialize_type (t : TCAPAnalyzer) (c : String) :
    ((a.materialize q t).computations c).type = (t.computations c).type := by
  unfold materialize
  split
  · rfl
  · show (Function.update t.computations a.mySpecifier
      ((t.computations a.mySpecifier).setOutput q.jobId a.curNode.outputName) c).type = _
    by_cases hc : c = a.mySpecifier
    · rw [hc, Function.update_self, setOutput_type]
    · rw [Function.update_of_ne hc]

theorem Along.length_le (h : Along s t isProbing emitted) :
    s.physicalPlanToOutput.length ≤ t.physicalPlanToOutput.length := by
  cases emitted with
  | false =>
    obtain ⟨l, -, ht⟩ := h.quiet rfl
    rw [ht]
  | true => exact Nat.le_of_lt (h.loud rfl).2.2

/-- a node with one consumer: an aggregation, or a join that is not marked -/
theorem analyzeNode_one {nextNode : AtomicComputation} {e : PipelineEnd}
    (hd : q.dynamicPlanningOrNot = true) (h : AtEnd q s e a t)
    (hnext : consumers q.plan a.curNode.outputName = [nextNode]) :
    (Postponed q s e → a.analyzeNode q t = some (.ret false (AnalyzeArgs.penalize t))) ∧
      (¬ Postponed q s e → ∃ u, a.analyzeNode q t = some (.ret true u) ∧ Pushes t (true, u)) := by
  obtain ⟨hx, hends⟩ := h.ends nextNode (by rw [← h.curNode]; exact hnext)
  rw [← h.curNode] at hx hends
  have hx' : ¬ ((a.myComputation t).type = .partitionComp ∧ nextNode.type ≠ .partition) := by
    rw [show (a.myComputation t).type = (s.computations a.curNode.computationName).type from
      h.along.type _]
    exact hx
  unfold analyzeNode
  dsimp only
  have hb := SameWay.policy a (a.myComputation t).allocatorPolicy
    ((a.myComputation t).allocatorPolicy ≠ .defaultAllocator)
  generalize (if (a.myComputation t).allocatorPolicy ≠ .defaultAllocator then
    { a with myPolicy := (a.myComputation t).allocatorPolicy } else a) = b at hb
  rw [hb.curNode, hnext]
  dsimp only
  rw [if_neg hx']
  obtain hagg | ⟨hjoin, htr⟩ := hends
  · have hpost : ¬ Postponed q s e := by
      rintro ⟨-, hj, -⟩
      rw [← h.curNode, hagg] at hj
      cases hj
    refine ⟨fun hp => absurd hp hpost, fun _ => ?_⟩
    rw [hagg]
    dsimp only
    unfold analyzeAggregate
    dsimp only
    rw [if_pos hd]
    exact ⟨_, rfl, Pushes.update _ (pushAggregation_length t _ _ _ _)⟩
  · rw [hjoin]
    dsimp only
    have hjoinEq : b.analyzeJoin q t nextNode = b.analyzeBuild q t := by
      unfold analyzeJoin
      rw [hb.curNode, h.along.traversed, htr]
      rfl
    rw [hjoinEq]
    have hpen : b.penalized t = true ↔ Postponed q s e := by
      have hb' : b.isProbing = e.isProbing := hb.isProbing.trans h.isProbing
      unfold penalized
      rw [hb', h.along.costOfCurSource, Bool.and_eq_true]
      constructor
      · rintro ⟨hp, hcost⟩
        refine ⟨?_, ?_, hp, hcost⟩
        · rw [← h.curNode, hnext]
          rfl
        · rw [← h.curNode, hjoin]
      · rintro ⟨-, -, hp, hcost⟩
        exact ⟨hp, hcost⟩
    constructor
    · intro hp
      unfold analyzeBuild
      rw [if_pos (hpen.mpr hp)]
    · intro hp
      obtain ⟨u, hu, hpush⟩ := analyzeBuild_pushes (q := q) (a := b) (t := t)
        (Bool.eq_false_iff.mpr fun hpen' => hp (hpen.mp hpen'))
      exact ⟨u, by rw [hu], hpush⟩

/-- a node with several consumers -/
theorem analyzeNode_several {e : PipelineEnd} (hd : q.dynamicPlanningOrNot = true)
    (h : AtEnd q s e a t) (hlen : 2 ≤ (consumers q.plan a.curNode.outputName).length) :
    (Refused q s e → ∃ b, SameWay a b ∧
        a.analyzeNode q t = some (.ret false (b.materialize q t))) ∧
      (¬ Refused q s e → ∃ u, a.analyzeNode q t = some (.ret true u) ∧ Pushes t (true, u)) := by
  have htype : (a.myComputation t).type = (s.computations e.node.computationName).type := by
    rw [← h.curNode]
    exact h.along.type _
  unfold analyzeNode
  dsimp only
  have hb := SameWay.policy a (a.myComputation t).allocatorPolicy
    ((a.myComputation t).allocatorPolicy ≠ .defaultAllocator)
  generalize (if (a.myComputation t).allocatorPolicy ≠ .defaultAllocator then
    { a with myPolicy := (a.myComputation t).allocatorPolicy } else a) = b at hb
  rw [hb.curNode]
  have hmat : (b.myComputation (b.materialize q t)).type =
      (s.computations e.node.computationName).type := by
    rw [← htype]
    show ((b.materialize q t).computations b.mySpecifier).type = _
    rw [materialize_type]
    unfold AnalyzeArgs.myComputation AnalyzeArgs.mySpecifier
    rw [hb.curNode]
  split
  · next hc =>
    rw [hc] at hlen
    exact absurd hlen (Nat.not_succ_le_zero 1)
  · next hc =>
    rw [hc] at hlen
    exact absurd hlen (Nat.lt_irrefl 1)
  · unfold analyzeSeveral
    dsimp only
    rw [hmat]
    constructor
    · rintro ⟨-, hj⟩
      rw [if_pos hj]
      exact ⟨b, hb, rfl⟩
    · intro hr
      have hlen' : 2 ≤ (consumers q.plan e.node.outputName).length := by
        rw [← h.curNode]
        exact hlen
      rw [if_neg (fun hj => hr ⟨hlen', hj⟩), if_pos hd]
      refine ⟨_, rfl, Pushes.update _ ?_⟩
      have := pushMaterializing_length (q := q) (a := b) (b.materialize q t)
        (b.materializedSink q t)
      rw [materialize_plan] at this
      exact this

/-- **What a call does at the end of its way.** -/
theorem analyze_end {e : PipelineEnd} (hd : q.dynamicPlanningOrNot = true) (h : AtEnd q s e a t)
    (n : Nat) :
    (Refused q s e → ∃ b, SameWay a b ∧
      analyze q (n + 1) a t = some (false, b.materialize q t)) ∧
    (Postponed q s e → analyze q (n + 1) a t = some (false, AnalyzeArgs.penalize t)) ∧
    (¬ Refused q s e → ¬ Postponed q s e → ∀ r, analyze q (n + 1) a t = some r → Pushes t r) := by
  have hret : ∀ {b : Bool} {u : TCAPAnalyzer}, a.analyzeNode q t = some (.ret b u) →
      analyze q (n + 1) a t = some (b, u) := by
    intro b u hu
    show (a.analyzeNode q t).bind _ = _
    rw [hu]
    rfl
  have hlen : ∀ k, (consumers q.plan a.curNode.outputName).length = k →
      (consumers q.plan e.node.outputName).length = k := by
    rw [h.curNode]
    exact fun _ hk => hk
  have hpushes : ∀ {u : TCAPAnalyzer}, a.analyzeNode q t = some (.ret true u) →
      Pushes t (true, u) → ∀ r, analyze q (n + 1) a t = some r → Pushes t r := by
    intro u hu hp r hr
    rw [hret hu] at hr
    rw [← Option.some.inj hr]
    exact hp
  cases hc : consumers q.plan a.curNode.outputName with
  | nil =>
    have h0 := hlen 0 (by rw [hc]; rfl)
    refine ⟨fun hr => ?_, fun hp => ?_, fun _ _ r hr => ?_⟩
    · have := hr.1
      omega
    · have := hp.1
      omega
    · obtain ⟨o, ho, hr⟩ := Option.bind_eq_some_iff.mp hr
      unfold analyzeNode at ho
      dsimp only at ho
      have hb := SameWay.policy a (a.myComputation t).allocatorPolicy
        ((a.myComputation t).allocatorPolicy ≠ .defaultAllocator)
      generalize (if (a.myComputation t).allocatorPolicy ≠ .defaultAllocator then
        { a with myPolicy := (a.myComputation t).allocatorPolicy } else a) = b at hb ho
      rw [hb.curNode, hc] at ho
      obtain ⟨u, hu, rfl⟩ := Option.map_eq_some_iff.mp ho
      rw [← Option.some.inj hr]
      exact analyzeSink_pushes hu
  | cons nextNode l =>
    cases l with
    | nil =>
      have h1 := hlen 1 (by rw [hc]; rfl)
      obtain ⟨hpost, hno⟩ := analyzeNode_one hd h hc
      refine ⟨fun hr => ?_, fun hp => hret (hpost hp), fun _ hp => ?_⟩
      · have := hr.1
        omega
      · obtain ⟨u, hu, hpu⟩ := hno hp
        exact hpushes hu hpu
    | cons nextNode' l =>
      have h2 := hlen (l.length + 2) (by rw [hc]; rfl)
      obtain ⟨href, hno⟩ := analyzeNode_several hd h (by rw [hc]; exact Nat.le_add_left _ _)
      refine ⟨fun hr => ?_, fun hp => ?_, fun hr _ => ?_⟩
      · obtain ⟨b, hb, hu⟩ := href hr
        exact ⟨b, hb, hret hu⟩
      · have := hp.1
        omega
      · obtain ⟨u, hu, hpu⟩ := hno hr
        exact hpushes hu hpu

end

/-! ## The call for a source -/

section
variable {q : Query} {s : TCAPAnalyzer} {curSource curNode : AtomicComputation} {set : SetIdentifier}

/-- where the call for a source and a consumer of it ends -/
def endOf (q : Query) (s : TCAPAnalyzer) (curSource : AtomicComputation) (set : SetIdentifier)
    (curNode : AtomicComputation) : Option PipelineEnd :=
  walk q s curSource set (q.plan.length + 2) curNode false false

theorem analyzeConsumer_none (h : endOf q s curSource set curNode = none) :
    analyzeConsumer q curSource set curNode s = none :=
  (analyze_walk _ (sourceArgs curSource set curNode) _ false (Along.start _)
    fun _ => ⟨rfl, rfl⟩).1 h

/-- **The call for a source, by the end of its way.** -/
theorem analyzeConsumer_end (hd : q.dynamicPlanningOrNot = true) {e : PipelineEnd}
    (h : endOf q s curSource set curNode = some e) :
    ∃ (a : AnalyzeArgs) (t : TCAPAnalyzer), a.curNode = e.node ∧
      Along s t e.isProbing e.emitted ∧
      (Refused q s e →
        analyzeConsumer q curSource set curNode s = some (false, a.materialize q t)) ∧
      (Postponed q s e →
        analyzeConsumer q curSource set curNode s = some (false, AnalyzeArgs.penalize t)) ∧
      (¬ Refused q s e → ¬ Postponed q s e → ∀ r,
        analyzeConsumer q curSource set curNode s = some r → Pushes s r) := by
  obtain ⟨n, a, t, heq, hend⟩ := (analyze_walk _ (sourceArgs curSource set curNode)
    { s with buildTheseTupleSets := [curSource.outputName] } false (Along.start _)
    fun _ => ⟨rfl, rfl⟩).2 e h
  have heq : analyzeConsumer q curSource set curNode s = analyze q (n + 1) a t := heq
  obtain ⟨href, hpost, hpush⟩ := analyze_end hd hend n
  rw [heq]
  by_cases hr : Refused q s e
  · obtain ⟨b, hb, hu⟩ := href hr
    exact ⟨b, t, hb.curNode.trans hend.curNode, hend.along, fun _ => hu, hpost,
      fun h => absurd hr h⟩
  · refine ⟨a, t, hend.curNode, hend.along, fun h => absurd h hr, hpost, fun h₁ h₂ r hr => ?_⟩
    obtain ⟨hb, hlen⟩ := hpush h₁ h₂ r hr
    exact ⟨hb, Nat.lt_of_le_of_lt hend.along.length_le hlen⟩

end
end Netsdb
