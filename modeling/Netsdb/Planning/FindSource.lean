import Mathlib.Data.List.Induction
import Mathlib.Data.List.Nodup
import Netsdb.Lib.Table
import Netsdb.Planning.LogicalPlan

/-!
# Who made a column (`AtomicComputationClasses.h`, `AtomicComputationList.cc`)

* `findSource`      a node answers for the columns that it makes and hands the others on, to the
                    node that made the tuple set of its projection;
* `origin`          the law of the columns: what is created in a node and what it copies;
* `CreatedBy`       the law followed through the list, over any number of copies;
* `step_eq`         a node decides by the law, if its columns are as its kind says;
* `findSource_spec` so the search ends at the creator. A partition takes itself for one.
-/

set_option linter.unusedSectionVars false

namespace Netsdb.Tcap

structure TupleSpec where
  setName : String
  atts : List String
deriving DecidableEq

structure AtomicComputation where
  type : AtomicComputationType
  input : TupleSpec
  output : TupleSpec
  projection : TupleSpec
  computationName : String
  /-- of `ApplyLambda`, `HashLeft` and `HashRight` -/
  lambdaName : String
  /-- of a join -/
  rightInput : TupleSpec
  rightProjection : TupleSpec
deriving DecidableEq

/-- the node that made each tuple set -/
structure AtomicComputationList where
  producers : List (String × AtomicComputation)

namespace AtomicComputationList

def addAtomicComputation (l : AtomicComputationList) (addMe : AtomicComputation) :
    AtomicComputationList :=
  ⟨Table.put l.producers addMe.output.setName addMe⟩

/-- `none` is the null pointer -/
def getProducingAtomicComputation (l : AtomicComputationList) (outputName : String) :
    Option AtomicComputation :=
  l.producers.lookup outputName

/-- the list of a plan, node after node -/
def ofPlan (plan : List AtomicComputation) : AtomicComputationList :=
  plan.foldl addAtomicComputation ⟨[]⟩

end AtomicComputationList

/-- how a search ends -/
inductive Search
  | found (computationName lambdaName : String)
  /-- `exit(1)` -/
  | exit
  /-- a null pointer, or an attribute past the end of its tuple set -/
  | invalid
  /-- the fuel is out -/
  | running
deriving DecidableEq

/-- `none` is `exit(1)` -/
def AtomicComputation.findPosInOutputAtts (a : AtomicComputation) (findMe : String) : Option ℕ :=
  let counter := a.output.atts.idxOf findMe
  if a.output.atts.length = counter then none else some counter

section Classes
variable (a : AtomicComputation) (attName : String) (go : TupleSpec → ℕ → Search)

/-- `go spec k` is `findSource` of column `k` of `spec`, at the node that made its tuple set -/
def atPos (k : ℕ → Search) : Search :=
  match a.findPosInOutputAtts attName with
  | none => .exit
  | some counter => k counter

/-- the last column is `last`, the others come from the projection -/
def sourceOfNew (last : Search) : Search :=
  atPos a attName fun counter =>
    if counter = a.output.atts.length - 1 then last else go a.projection counter

def ApplyLambda.findSource : Search :=
  sourceOfNew a attName go (.found a.computationName a.lambdaName)

def HashLeft.findSource : Search := sourceOfNew a attName go (go a.input 0)

def HashRight.findSource : Search := sourceOfNew a attName go (go a.input 0)

def Flatten.findSource : Search := sourceOfNew a attName go (.found a.computationName "")

def HashOne.findSource : Search :=
  atPos a attName fun counter =>
    if a.projection.atts.length ≤ counter then go a.projection 0 else go a.projection counter

def ApplyFilter.findSource : Search := atPos a attName fun counter => go a.projection counter

/-- the one column is made here -/
def sourceOfOne : Search :=
  atPos a attName fun counter => if counter = 0 then .found a.computationName "" else .exit

def ApplyAgg.findSource : Search := sourceOfOne a attName

def ScanSet.findSource : Search := sourceOfOne a attName

def ApplyPartition.findSource : Search := sourceOfOne a attName

def ApplyJoin.findSource : Search :=
  atPos a attName fun counter =>
    if counter < a.projection.atts.length then go a.projection counter
    else if counter < a.projection.atts.length + a.rightProjection.atts.length then
      go a.rightProjection (counter - a.projection.atts.length)
    else .exit

def WriteSet.findSource : Search := .exit

/-- the override of the node -/
def AtomicComputation.step : Search :=
  match a.type with
  | .apply => ApplyLambda.findSource a attName go
  | .hashLeft => HashLeft.findSource a attName go
  | .hashRight => HashRight.findSource a attName go
  | .hashOne => HashOne.findSource a attName go
  | .flatten => Flatten.findSource a attName go
  | .filter => ApplyFilter.findSource a attName go
  | .aggregate => ApplyAgg.findSource a attName
  | .scan => ScanSet.findSource a attName
  | .partition => ApplyPartition.findSource a attName
  | .joinSets => ApplyJoin.findSource a attName go
  | .writeSet => WriteSet.findSource

end Classes

def findSource (allComps : AtomicComputationList) : ℕ → AtomicComputation → String → Search
  | 0, _, _ => .running
  | fuel + 1, a, attName => a.step attName fun spec k =>
    match allComps.getProducingAtomicComputation spec.setName, spec.atts[k]? with
    | some b, some att => findSource allComps fuel b att
    | _, _ => .invalid

/-! ## The law of the columns -/

/-- where a column comes from -/
inductive Origin
  | created
  | copied (spec : TupleSpec) (k : ℕ)
deriving DecidableEq

namespace AtomicComputation

/-- a column after those of the projection: what a hash was made from, the right side of a join, or
new here -/
def newColumn (a : AtomicComputation) (i : ℕ) : Origin :=
  match a.type with
  | .hashLeft | .hashRight => .copied a.input 0
  | .hashOne => .copied a.projection 0
  | .joinSets => .copied a.rightProjection (i - a.projection.atts.length)
  | _ => .created

/-- the kinds `single` create their one column; the others copy their projection first -/
def origin (single : List AtomicComputationType) (a : AtomicComputation) (i : ℕ) : Origin :=
  if a.type ∈ single then .created
  else if i < a.projection.atts.length then .copied a.projection i
  else a.newColumn i

/-- the lambda that creates a column -/
def creatingLambda (a : AtomicComputation) : String := if a.type = .apply then a.lambdaName else ""

/-- the columns that a node reads -/
def reads (a : AtomicComputation) : List TupleSpec :=
  match a.type with
  | .scan => []
  | .joinSets => [a.input, a.projection, a.rightInput, a.rightProjection]
  | _ => [a.input, a.projection]

/-- how many columns a node has -/
def width (single : List AtomicComputationType) (a : AtomicComputation) : ℕ :=
  if a.type ∈ single then 1
  else match a.type with
    | .apply | .hashLeft | .hashRight | .hashOne | .flatten => a.projection.atts.length + 1
    | .joinSets => a.projection.atts.length + a.rightProjection.atts.length
    | _ => a.projection.atts.length

/-- what is hashed is there -/
def Hashes (a : AtomicComputation) : Prop :=
  match a.type with
  | .hashLeft | .hashRight => a.input.atts ≠ []
  | .hashOne => a.projection.atts ≠ []
  | _ => True

instance (a : AtomicComputation) : Decidable a.Hashes := by
  unfold Hashes
  split <;> infer_instance

end AtomicComputation

/-- the column `att` of `a` has its value from the node `c` -/
inductive CreatedBy (single : List AtomicComputationType) (plan : List AtomicComputation) :
    AtomicComputation → String → AtomicComputation → Prop
  | here {a : AtomicComputation} {i : ℕ} {att : String} (hi : a.output.atts[i]? = some att)
      (ho : a.origin single i = .created) : CreatedBy single plan a att a
  | up {a b c : AtomicComputation} {i k : ℕ} {att att' : String} {spec : TupleSpec}
      (hi : a.output.atts[i]? = some att) (ho : a.origin single i = .copied spec k) (hb : b ∈ plan)
      (hname : b.output.setName = spec.setName) (hk : spec.atts[k]? = some att')
      (h : CreatedBy single plan b att' c) : CreatedBy single plan a att c

structure WellFormed (single : List AtomicComputationType) (plan : List AtomicComputation) : Prop where
  acyclic : ∃ rank : String → ℕ, ∀ a ∈ plan, ∀ r ∈ a.reads, rank r.setName < rank a.output.setName
  names : (plan.map fun a => a.output.setName).Nodup
  atts : ∀ a ∈ plan, a.output.atts.Nodup
  width : ∀ a ∈ plan, a.output.atts.length = a.width single
  hashes : ∀ a ∈ plan, a.Hashes
  /-- what is read was made, and not by a `WriteSet` -/
  reads : ∀ a ∈ plan, ∀ r ∈ a.reads, ∃ b ∈ plan,
    b.output.setName = r.setName ∧ b.type ≠ .writeSet ∧ r.atts ⊆ b.output.atts

/-- the column has one creator, and the search ends there -/
def Traced (single : List AtomicComputationType) (plan : List AtomicComputation)
    (a : AtomicComputation) (att : String) : Prop :=
  ∃ c ∈ plan, CreatedBy single plan a att c ∧ (∀ c', CreatedBy single plan a att c' → c' = c) ∧
    ∃ n, ∀ fuel ≥ n, findSource (.ofPlan plan) fuel a att = .found c.computationName c.creatingLambda

/-- the kinds with one column -/
def singles : List AtomicComputationType := [.scan, .aggregate, .partition]

section
variable {plan : List AtomicComputation} {a b : AtomicComputation} {att : String} {i k : ℕ}
  {spec : TupleSpec} {go : TupleSpec → ℕ → Search}

/-- a name that is given once leads to its node -/
theorem producing_of_mem (hn : (plan.map fun a => a.output.setName).Nodup) (hb : b ∈ plan) :
    (AtomicComputationList.ofPlan plan).getProducingAtomicComputation b.output.setName = some b := by
  induction plan using List.reverseRecOn with
  | nil => cases hb
  | append_singleton plan a ih =>
    rw [List.map_append, List.nodup_append] at hn
    obtain ⟨hp, -, hd⟩ := hn
    rw [AtomicComputationList.ofPlan, List.foldl_concat]
    show (Table.put (AtomicComputationList.ofPlan plan).producers a.output.setName a).lookup
      b.output.setName = some b
    rw [Table.lookup_put]
    obtain hb | hb := List.mem_append.mp hb
    · rw [if_neg (hd _ (List.mem_map_of_mem hb) _ (List.mem_singleton.mpr rfl))]
      exact ih hp hb
    · obtain rfl := List.mem_singleton.mp hb
      rw [if_pos rfl]

theorem findPos_eq (hn : a.output.atts.Nodup) (hi : a.output.atts[i]? = some att) :
    a.findPosInOutputAtts att = some i := by
  obtain ⟨hlt, rfl⟩ := List.getElem?_eq_some_iff.mp hi
  unfold AtomicComputation.findPosInOutputAtts
  rw [hn.idxOf_getElem i hlt]
  exact if_neg hlt.ne'

theorem atPos_eq (hn : a.output.atts.Nodup) (hi : a.output.atts[i]? = some att) (f : ℕ → Search) :
    atPos a att f = f i := by
  rw [atPos, findPos_eq hn hi]

/-- what the law says of a column that the node was asked for -/
def Origin.answer (o : Origin) (a : AtomicComputation) (go : TupleSpec → ℕ → Search) : Search :=
  match o with
  | .created => .found a.computationName a.creatingLambda
  | .copied spec k => go spec k

theorem sourceOfNew_eq (hn : a.output.atts.Nodup) (hi : a.output.atts[i]? = some att)
    (hw : a.output.atts.length = a.projection.atts.length + 1) (last : Search) :
    sourceOfNew a att go last = if i < a.projection.atts.length then go a.projection i else last := by
  obtain ⟨hlt, -⟩ := List.getElem?_eq_some_iff.mp hi
  rw [sourceOfNew, atPos_eq hn hi, hw, Nat.add_sub_cancel]
  by_cases h : i = a.projection.atts.length
  · rw [if_pos h, if_neg (by omega)]
  · rw [if_neg h, if_pos (by omega)]

theorem sourceOfOne_eq (hn : a.output.atts.Nodup) (hi : a.output.atts[i]? = some att)
    (hw : a.output.atts.length = 1) : sourceOfOne a att = .found a.computationName "" := by
  obtain ⟨hlt, -⟩ := List.getElem?_eq_some_iff.mp hi
  rw [sourceOfOne, atPos_eq hn hi, if_pos (by omega)]

theorem creatingLambda_of_ne (h : a.type ≠ .apply) : a.creatingLambda = "" := if_neg h

/-- the law for a node that copies its projection -/
theorem answer_eq (hs : a.type ∉ singles) : (a.origin singles i).answer a go =
    if i < a.projection.atts.length then go a.projection i else (a.newColumn i).answer a go := by
  rw [AtomicComputation.origin, if_neg hs]
  split <;> rfl

/-- a node decides by the law of the columns -/
theorem step_eq (hn : a.output.atts.Nodup) (hw : a.output.atts.length = a.width singles)
    (ht : a.type ≠ .writeSet) (hi : a.output.atts[i]? = some att) :
    a.step att go = (a.origin singles i).answer a go := by
  obtain ⟨hlt, -⟩ := List.getElem?_eq_some_iff.mp hi
  by_cases hs : a.type ∈ singles
  · have ho : a.origin singles i = .created := if_pos hs
    rw [AtomicComputation.width, if_pos hs] at hw
    rw [ho, Origin.answer, creatingLambda_of_ne (fun h => absurd (h ▸ hs) (by decide)),
      ← sourceOfOne_eq hn hi hw]
    unfold AtomicComputation.step
    cases h : a.type <;> rw [h] at hs
    case aggregate | scan | partition => rfl
    all_goals exact absurd hs (by decide)
  · rw [answer_eq hs]
    rw [AtomicComputation.width, if_neg hs] at hw
    unfold AtomicComputation.step AtomicComputation.newColumn
    cases h : a.type <;> rw [h] at hw ht hs
    case aggregate | scan | partition => exact absurd (by decide) hs
    case writeSet => exact absurd rfl ht
    case apply =>
      rw [ApplyLambda.findSource, sourceOfNew_eq hn hi hw, Origin.answer,
        AtomicComputation.creatingLambda, if_pos h]
    case flatten =>
      show Flatten.findSource a att go = if _ then _ else .found a.computationName a.creatingLambda
      rw [Flatten.findSource, sourceOfNew_eq hn hi hw, creatingLambda_of_ne (h ▸ by decide)]
    case hashLeft | hashRight => exact sourceOfNew_eq hn hi hw _
    case hashOne =>
      rw [HashOne.findSource, atPos_eq hn hi]
      by_cases hp : a.projection.atts.length ≤ i
      · rw [if_pos hp, if_neg (by omega)]
        rfl
      · rw [if_neg hp, if_pos (by omega)]
    case filter =>
      rw [ApplyFilter.findSource, atPos_eq hn hi, if_pos (hlt.trans_eq hw)]
    case joinSets =>
      have hlt : i < a.projection.atts.length + a.rightProjection.atts.length := hlt.trans_eq hw
      show ApplyJoin.findSource a att go = _
      rw [ApplyJoin.findSource, atPos_eq hn hi, if_pos hlt]
      rfl

/-- what a column is copied from is a column that the node reads -/
theorem origin_copied (hw : a.output.atts.length = a.width singles) (hh : a.Hashes)
    (hi : i < a.output.atts.length) (ho : a.origin singles i = .copied spec k) :
    spec ∈ a.reads ∧ k < spec.atts.length := by
  have hs : a.type ∉ singles := by
    intro hs
    rw [AtomicComputation.origin, if_pos hs] at ho
    cases ho
  rw [AtomicComputation.origin, if_neg hs] at ho
  rw [AtomicComputation.width, if_neg hs] at hw
  have hproj : a.projection ∈ a.reads := by
    unfold AtomicComputation.reads
    cases h : a.type
    case scan => exact absurd (h ▸ by decide) hs
    all_goals exact List.mem_cons_of_mem _ List.mem_cons_self
  split at ho
  · next hp =>
    cases ho
    exact ⟨hproj, hp⟩
  · unfold AtomicComputation.newColumn at ho
    unfold AtomicComputation.Hashes at hh
    unfold AtomicComputation.reads
    cases h : a.type <;> rw [h] at ho hh hw
    case hashLeft | hashRight =>
      cases ho
      exact ⟨List.mem_cons_self, List.length_pos_iff.mpr hh⟩
    case hashOne =>
      cases ho
      exact ⟨List.mem_cons_of_mem _ List.mem_cons_self, List.length_pos_iff.mpr hh⟩
    case joinSets =>
      cases ho
      refine ⟨by simp only [List.mem_cons, true_or, or_true], ?_⟩
      have hw : a.output.atts.length = a.projection.atts.length + a.rightProjection.atts.length := hw
      show i - _ < _
      omega
    all_goals cases ho

variable {single : List AtomicComputationType}

/-- a created column has no other creator -/
theorem CreatedBy.of_created {c : AtomicComputation} (hn : a.output.atts.Nodup)
    (hi : a.output.atts[i]? = some att) (ho : a.origin single i = .created)
    (h : CreatedBy single plan a att c) : c = a := by
  have hp := findPos_eq hn hi
  cases h with
  | here hi' ho' => rfl
  | up hi' ho' hb hname hk h =>
    cases hp.symm.trans (findPos_eq hn hi')
    cases ho.symm.trans ho'

/-- a copied column has the creator of the column it was copied from -/
theorem CreatedBy.of_copied {c : AtomicComputation} {att' : String}
    (hnames : (plan.map fun a => a.output.setName).Nodup) (hn : a.output.atts.Nodup)
    (hi : a.output.atts[i]? = some att) (ho : a.origin single i = .copied spec k) (hb : b ∈ plan)
    (hname : b.output.setName = spec.setName) (hk : spec.atts[k]? = some att')
    (h : CreatedBy single plan a att c) : CreatedBy single plan b att' c := by
  have hp := findPos_eq hn hi
  cases h with
  | here hi' ho' =>
    cases hp.symm.trans (findPos_eq hn hi')
    cases ho.symm.trans ho'
  | up hi' ho' hb' hname' hk' h =>
    cases hp.symm.trans (findPos_eq hn hi')
    cases ho.symm.trans ho'
    cases hk.symm.trans hk'
    have hbb := producing_of_mem hnames hb'
    rw [hname', ← hname, producing_of_mem hnames hb] at hbb
    cases hbb
    exact h

/-- from a node to the node that it copies a column from -/
theorem findSource_copied {att' : String} (hw : WellFormed singles plan) (ha : a ∈ plan)
    (ht : a.type ≠ .writeSet) (hi : a.output.atts[i]? = some att)
    (ho : a.origin singles i = .copied spec k) (hb : b ∈ plan)
    (hname : b.output.setName = spec.setName) (hk : spec.atts[k]? = some att') (fuel : ℕ) :
    findSource (.ofPlan plan) (fuel + 1) a att = findSource (.ofPlan plan) fuel b att' := by
  rw [findSource, step_eq (hw.atts a ha) (hw.width a ha) ht hi, ho, Origin.answer, hk, ← hname,
    producing_of_mem hw.names hb]

theorem findSource_created (hw : WellFormed singles plan) (ha : a ∈ plan)
    (ht : a.type ≠ .writeSet) (hi : a.output.atts[i]? = some att)
    (ho : a.origin singles i = .created) (fuel : ℕ) :
    findSource (.ofPlan plan) (fuel + 1) a att = .found a.computationName a.creatingLambda := by
  rw [findSource, step_eq (hw.atts a ha) (hw.width a ha) ht hi, ho, Origin.answer]

/-- **the search ends at the creator of the column**, over any number of copies and through the right
side of every join -/
theorem findSource_spec (hw : WellFormed singles plan) (ha : a ∈ plan) (ht : a.type ≠ .writeSet)
    (hatt : att ∈ a.output.atts) : Traced singles plan a att := by
  obtain ⟨rank, hr⟩ := hw.acyclic
  -- the nodes that a column is copied from have lower ranks
  induction hm : rank a.output.setName using Nat.strongRecOn generalizing a att with
  | ind m ih =>
    obtain ⟨i, hi⟩ := List.mem_iff_getElem?.mp hatt
    have hn := hw.atts a ha
    cases ho : a.origin singles i with
    | created =>
      refine ⟨a, ha, .here hi ho, fun c' h => h.of_created hn hi ho, 1, fun fuel hf => ?_⟩
      obtain ⟨fuel, rfl⟩ := Nat.exists_eq_add_of_le' hf
      exact findSource_created hw ha ht hi ho fuel
    | copied spec k =>
      obtain ⟨hspec, hk⟩ := origin_copied (hw.width a ha) (hw.hashes a ha)
        (List.getElem?_eq_some_iff.mp hi).1 ho
      obtain ⟨b, hb, hname, htb, hsub⟩ := hw.reads a ha spec hspec
      have hk' : spec.atts[k]? = some spec.atts[k] := List.getElem?_eq_getElem hk
      obtain ⟨c, hc, hcb, huniq, n, hn'⟩ := ih _ (hm ▸ hname ▸ hr a ha spec hspec) hb htb
        (hsub (List.getElem_mem hk)) rfl
      refine ⟨c, hc, .up hi ho hb hname hk' hcb, fun c' h => ?_, n + 1, fun fuel hf => ?_⟩
      · exact huniq c' (h.of_copied hw.names hn hi ho hb hname hk')
      · obtain ⟨fuel, rfl⟩ := Nat.exists_eq_add_of_le' hf
        rw [← Nat.add_assoc, findSource_copied hw ha ht hi ho hb hname hk']
        exact hn' _ (Nat.le_add_left _ _)

end

/-- a node with one input -/
def AtomicComputation.ofInput (type : AtomicComputationType) (output input projection : TupleSpec)
    (computationName lambdaName : String) : AtomicComputation :=
  { type, input, output, projection, computationName, lambdaName, rightInput := ⟨"Empty", []⟩
    rightProjection := ⟨"Empty", []⟩ }

def AtomicComputation.scan (output : TupleSpec) (computationName : String) : AtomicComputation :=
  .ofInput .scan output ⟨"Empty", []⟩ ⟨"Empty", []⟩ computationName ""

/-- employees and departments joined on a key, both sides with a column `rec` -/
def joined : List AtomicComputation :=
  [.scan ⟨"emps", ["rec"]⟩ "Scan_0",
   .ofInput .apply ⟨"empKeys", ["rec", "key"]⟩ ⟨"emps", ["rec"]⟩ ⟨"emps", ["rec"]⟩ "Join_2" "att_0",
   .ofInput .hashLeft ⟨"empHashes", ["rec", "hash"]⟩ ⟨"empKeys", ["key"]⟩ ⟨"empKeys", ["rec"]⟩
    "Join_2" "==_2",
   .scan ⟨"deps", ["rec"]⟩ "Scan_1",
   .ofInput .apply ⟨"depKeys", ["rec", "key"]⟩ ⟨"deps", ["rec"]⟩ ⟨"deps", ["rec"]⟩ "Join_2" "att_1",
   .ofInput .hashRight ⟨"depHashes", ["rec", "hash"]⟩ ⟨"depKeys", ["key"]⟩ ⟨"depKeys", ["rec"]⟩
    "Join_2" "==_2",
   { type := .joinSets, output := ⟨"pairs", ["emp", "hash", "dep", "hash2"]⟩
     input := ⟨"empHashes", ["hash"]⟩, projection := ⟨"empHashes", ["rec", "hash"]⟩
     rightInput := ⟨"depHashes", ["hash"]⟩, rightProjection := ⟨"depHashes", ["rec", "hash"]⟩
     computationName := "Join_2", lambdaName := "" },
   .ofInput .filter ⟨"kept", ["dep", "hash"]⟩ ⟨"pairs", ["emp"]⟩ ⟨"pairs", ["dep", "hash2"]⟩
    "Join_2" ""]

theorem joined_wellFormed : WellFormed singles joined where
  acyclic := ⟨fun name => (joined.map fun a => a.output.setName).idxOf name, by decide +kernel⟩
  names := by decide +kernel
  atts := by decide +kernel
  width := by decide +kernel
  hashes := by decide +kernel
  reads := by decide +kernel

/-- the hash of the right side was made from the key of the departments -/
theorem findSource_spec_joined :
    Traced singles joined (joined.getD 7 (.scan ⟨"", []⟩ "")) "hash" ∧
    findSource (.ofPlan joined) 10 (joined.getD 7 (.scan ⟨"", []⟩ "")) "hash" =
      .found "Join_2" "att_1" :=
  ⟨findSource_spec joined_wellFormed (by decide +kernel) (by decide +kernel) (by decide +kernel),
   by decide +kernel⟩

/-- a partition answers for the column that it copies -/
theorem findSource_not_through_partition :
    ¬ ∀ plan, WellFormed [.scan, .aggregate] plan → ∀ a ∈ plan, a.type ≠ .writeSet →
      ∀ att ∈ a.output.atts, Traced [.scan, .aggregate] plan a att := by
  intro h
  let src : AtomicComputation := .scan ⟨"emps", ["rec"]⟩ "Scan_0"
  let part : AtomicComputation :=
    .ofInput .partition ⟨"parts", ["emp"]⟩ ⟨"emps", ["rec"]⟩ ⟨"emps", ["rec"]⟩ "Partition_1" ""
  obtain ⟨c, -, -, huniq, n, hn⟩ := h [src, part]
    { acyclic := ⟨fun name => ["emps", "parts"].idxOf name, by decide +kernel⟩
      names := by decide +kernel
      atts := by decide +kernel
      width := by decide +kernel
      hashes := by decide +kernel
      reads := by decide +kernel } part (by decide +kernel) (by decide +kernel) "emp"
    (by decide +kernel)
  have hsrc : CreatedBy [.scan, .aggregate] [src, part] part "emp" src :=
    .up (i := 0) rfl rfl List.mem_cons_self rfl rfl (.here (i := 0) rfl rfl)
  have hf := hn (n + 1) (Nat.le_succ n)
  rw [← huniq src hsrc] at hf
  have hp : findSource (.ofPlan [src, part]) (n + 1) part "emp" = .found "Partition_1" "" := rfl
  exact absurd (hp.symm.trans hf) (by decide)

end Netsdb.Tcap
