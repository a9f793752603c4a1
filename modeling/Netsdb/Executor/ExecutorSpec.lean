import Netsdb.Executor.ComputeExecutor
import Netsdb.Lib.Grid
import Mathlib.Data.List.Sigma

/-!
# What one executor does

* `Atts.Ok`, `Executor.WellTyped`   the attributes are found, and have the types that are needed;
* `Executor.Fine`                   the bounds on one input, and where `HASHONE` must look;
* `Shows r m t ts T`                the columns of `t` are those of the table `T`;
* `process_spec`                    the output shows `Executor.sem`, and only the output's own vectors
                                    were touched.
-/

set_option linter.unusedSectionVars false

namespace Netsdb
open TupleSet

variable {α : Type} {m m' : Memory α} {input out out' : TupleSet} {r u : Multiset ℕ} {ts : List ColType}
  {T : List (Row α)} {X Y : ℕ → List (Value α)} {K : List ℕ}

/-! ## the machine -/

namespace TupleSetSetupMachine

theorem match_eq {schema atts : List String} (h : ∀ s ∈ atts, s ∈ schema) :
    match_ schema atts = atts.map schema.idxOf := by
  induction atts with
  | nil => rfl
  | cons s atts ih =>
    have hs : s ∈ schema := h s List.mem_cons_self
    rw [match_, List.filterMap_cons, if_pos hs, List.map_cons]
    exact congrArg _ (ih fun s' hs' => h s' (List.mem_cons_of_mem s hs'))

theorem setup_spec (h : m.Owned (out.owned + r)) (hu : u ⊆ r)
    (hin : ∀ i ∈ K, Provides u m input i (X i)) :
    ∃ m' out', setup K m out input = some (m', out') ∧
      Changed r {k | k < K.length} m m' out out' ∧
      ∀ k (hk : k < K.length), Holds u m' out' k (X K[k]) := by
  obtain ⟨m', out', hrun, hc, hall⟩ := forEach_spec (r := r) (g := Prod.snd)
    (f := fun (i : ℕ × ℕ) m t => t.copyColumn m input i.1 i.2)
    (P := fun i m _ => Provides u m input i.1 (X i.1))
    (Q := fun i m t => Holds u m t i.2 (X i.1))
    (fun _ hc hp => hp.same (hc.same.mono hu)) (fun hk hc hp => hp.changed hu hc hk)
    (fun ho hp => copyColumn_spec ho hp hu _) K.zipIdx (List.nodup_zipIdx_map_snd K) h
    (fun i hi => hin _ (List.fst_mem_of_mem_zipIdx hi))
  refine ⟨m', out', hrun, hc.mono fun k hk => ?_, fun k hk => ?_⟩
  · obtain ⟨i, hi, rfl⟩ := List.mem_map.mp hk
    exact List.snd_lt_of_mem_zipIdx hi
  · exact hall (K[k], k) (List.mem_zipIdx_iff_getElem?.mpr (List.getElem?_eq_getElem hk))

theorem replicate_spec {N : List ℕ} (h : m.Owned (out.owned + r)) (hu : u ⊆ r)
    (hin : ∀ i ∈ K, Provides u m input i (X i))
    (hres : ∀ i ∈ K, ∀ c : Column α, c.rows = X i →
      ∃ res, c.replicate N = some res ∧ res.rows = Y i) (offset : ℕ) :
    ∃ m' out', replicate K m out input N offset = some (m', out') ∧
      Changed r {k | offset ≤ k ∧ k < K.length + offset} m m' out out' ∧
      ∀ k (hk : k < K.length), Holds u m' out' (k + offset) (Y K[k]) := by
  have hnodup : (K.zipIdx.map fun i => i.2 + offset).Nodup := by
    have h := (List.nodup_zipIdx_map_snd K).map (add_left_injective offset)
    rwa [List.map_map] at h
  obtain ⟨m', out', hrun, hc, hall⟩ := forEach_spec (r := r) (g := fun i => i.2 + offset)
    (f := fun (i : ℕ × ℕ) m t => t.replicate m input i.1 (i.2 + offset) N)
    (P := fun i m _ => i.1 ∈ K ∧ Provides u m input i.1 (X i.1))
    (Q := fun i m t => Holds u m t (i.2 + offset) (Y i.1))
    (fun _ hc hp => ⟨hp.1, hp.2.same (hc.same.mono hu)⟩) (fun hk hc hp => hp.changed hu hc hk)
    (fun ho hp => TupleSet.replicate_spec ho hp.2 hu (hres _ hp.1) _) K.zipIdx hnodup h
    (fun i hi => ⟨List.fst_mem_of_mem_zipIdx hi, hin _ (List.fst_mem_of_mem_zipIdx hi)⟩)
  refine ⟨m', out', hrun, hc.mono fun k hk => ?_, fun k hk => ?_⟩
  · obtain ⟨i, hi, rfl⟩ := List.mem_map.mp hk
    have hlt := List.snd_lt_of_mem_zipIdx hi
    show offset ≤ i.2 + offset ∧ i.2 + offset < K.length + offset
    omega
  · exact hall (K[k], k) (List.mem_zipIdx_iff_getElem?.mpr (List.getElem?_eq_getElem hk))

end TupleSetSetupMachine

/-- the attributes are those of the input -/
structure Atts.Ok (a : Atts) (ts : List ColType) : Prop where
  width : a.inputSchema.length = ts.length
  operand : a.attsToOperateOn ≠ []
  operate : ∀ s ∈ a.attsToOperateOn, s ∈ a.inputSchema
  include_ : ∀ s ∈ a.attsToIncludeInOutput, s ∈ a.inputSchema

namespace Atts.Ok
variable {a : Atts}

theorem length_matches (h : a.Ok ts) : a.matches_.length = a.outAtt := by
  rw [matches_, TupleSetSetupMachine.match_eq h.include_, List.length_map]
  rfl

theorem matches_lt (h : a.Ok ts) : ∀ k ∈ a.matches_, k < ts.length := by
  rw [matches_, TupleSetSetupMachine.match_eq h.include_]
  intro k hk
  obtain ⟨s, hs, rfl⟩ := List.mem_map.mp hk
  rw [← h.width]
  exact List.idxOf_lt_length_of_mem (h.include_ s hs)

theorem inputAtts_lt (h : a.Ok ts) : ∀ k ∈ a.inputAtts, k < ts.length := by
  rw [inputAtts, TupleSetSetupMachine.match_eq h.operate]
  intro k hk
  obtain ⟨s, hs, rfl⟩ := List.mem_map.mp hk
  rw [← h.width]
  exact List.idxOf_lt_length_of_mem (h.operate s hs)

theorem inputAtts_cons (h : a.Ok ts) : ∃ w l, a.inputAtts = w :: l ∧ a.whichAtt = some w ∧
    w < ts.length := by
  obtain ⟨s, l, hsl⟩ := List.exists_cons_of_ne_nil h.operand
  have he : a.inputAtts = a.inputSchema.idxOf s :: l.map a.inputSchema.idxOf := by
    rw [inputAtts, TupleSetSetupMachine.match_eq h.operate, hsl, List.map_cons]
  refine ⟨_, _, he, ?_, h.inputAtts_lt _ ?_⟩
  · rw [whichAtt, he, List.head?_cons]
  · rw [he]
    exact List.mem_cons_self

theorem operand_eq (h : a.Ok ts) : a.whichAtt = some a.operand ∧ a.operand < ts.length := by
  obtain ⟨w, l, -, hwhich, hlt⟩ := h.inputAtts_cons
  have he : a.operand = w := by rw [Atts.operand, hwhich, Option.getD_some]
  rw [he]
  exact ⟨hwhich, hlt⟩

end Atts.Ok

/-! ## the output column -/

theorem createColumn_spec {k : ℕ} (h : m.Owned (out.owned + r))
    (hown : ∀ s, out.find k = some s → s.mustDelete = true) (zero : Value α) :
    ∃ m' out', createColumn m out k zero = some (m', out') ∧ Changed r {k} m m' out out' ∧
      ∃ s, out'.find k = some s ∧ s.mustDelete = true := by
  rw [createColumn]
  cases hfind : out.find k with
  | none =>
    rw [if_neg (by rw [hasColumn, hfind]; nofun)]
    obtain ⟨m', out', hrun, hc, hnew, -⟩ := addColumn_spec (u := r) h k ⟨zero, []⟩
    exact ⟨m', out', hrun, hc, _, hnew, rfl⟩
  | some s =>
    rw [if_pos (by rw [hasColumn, hfind]; rfl)]
    exact ⟨m, out, rfl, Changed.refl h _, s, hfind, hown s hfind⟩

theorem writeColumn_spec {k : ℕ} {s : Slot} (h : m.Owned (out.owned + r))
    (hfind : out.find k = some s) (hd : s.mustDelete = true) (rows : List (Value α)) :
    ∃ m', writeColumn m out k rows = some m' ∧ Changed r {k} m m' out out ∧
      Holds u m' out k rows := by
  have hp : s.ptr ∈ out.owned + r := Multiset.mem_add.mpr (.inl (mem_owned hfind hd))
  obtain ⟨c, hc⟩ := ((h.live _).mp hp).exists
  obtain ⟨m', hm', ho, hnew, hsame⟩ := h.store hp { c with rows := rows }
  have hs : out.find k = some ⟨s.ptr, true⟩ := by rw [hfind, ← hd]
  refine ⟨m', ?_, changed_cells [s.ptr] h ho (fun p hm => ?_) fun q hq => ?_,
    fun s' hs' hd' => ?_, { c with rows := rows }, ?_, rfl⟩
  · rw [writeColumn, hfind, Option.bind_eq_bind, Option.bind_some, hc]
    exact hm'
  · obtain rfl := List.mem_singleton.mp hm
    exact ⟨k, rfl, hs⟩
  · exact hsame q fun e => hq (e ▸ List.mem_cons_self)
  · rw [Option.some.inj (hfind.symm.trans hs'), hd'] at hd
    cases hd
  · rw [getColumn, hfind]
    exact hnew

/-- after the carried columns -/
theorem ownColumn_spec {n : ℕ} (hu : u ⊆ r) (hc : Changed r {k | k < n} m m' out out')
    (hh : ∀ k < n, Holds u m' out' k (X k))
    (hown : ∀ s, out.find n = some s → s.mustDelete = true) (zero : Value α) :
    ∃ m₂ out₂, createColumn m' out' n zero = some (m₂, out₂) ∧
      (∀ k < n, Holds u m₂ out₂ k (X k)) ∧ Cells.Same r m' m₂ ∧
      (∀ s, out₂.find n = some s → s.mustDelete = true) ∧
      ∀ rows, ∃ m₃, writeColumn m₂ out₂ n rows = some m₃ ∧
        Changed r {k | k < n + 1} m m₃ out out₂ ∧ (∀ k < n, Holds u m₃ out₂ k (X k)) ∧
        Holds u m₃ out₂ n rows := by
  have hown' : ∀ s, out'.find n = some s → s.mustDelete = true := fun s hs =>
    hown s (by rwa [hc.find n (lt_irrefl n)] at hs)
  obtain ⟨m₂, out₂, hrun₂, hc₂, s, hs, hd⟩ := createColumn_spec hc.owned hown' zero
  have hd' : ∀ s', out₂.find n = some s' → s'.mustDelete = true := fun s' hs' =>
    Option.some.inj (hs.symm.trans hs') ▸ hd
  refine ⟨m₂, out₂, hrun₂, fun k hk => (hh k hk).changed hu hc₂ hk.ne, hc₂.same, hd', fun rows => ?_⟩
  obtain ⟨m₃, hrun₃, hc₃, hh₃⟩ := writeColumn_spec hc₂.owned hs hd rows
  refine ⟨m₃, hrun₃, (hc.mono ?_).trans ((hc₂.mono ?_).trans (hc₃.mono ?_)),
    fun k hk => ((hh k hk).changed hu hc₂ hk.ne).changed hu hc₃ hk.ne, hh₃⟩
  · exact fun k hk => Nat.lt_succ_of_lt hk
  · exact fun k hk => Nat.lt_succ_of_le (le_of_eq hk)
  · exact fun k hk => Nat.lt_succ_of_le (le_of_eq hk)

/-! ## rows of a table -/

theorem cell_project {k : ℕ} (hk : k < K.length) (row : Row α) :
    cell k (project K row) = cell K[k] row := by
  rw [cell, project, List.getD_eq_getElem _ _ (by rwa [List.length_map]), List.getElem_map]

theorem cell_carried {k : ℕ} (hk : k < K.length) (row : Row α) (v : Value α) :
    cell k (project K row ++ [v]) = cell K[k] row := by
  have hlen : k < (project K row).length := by rwa [project, List.length_map]
  rw [cell, List.getD_append _ _ _ _ hlen]
  exact cell_project hk row

theorem cell_own {n : ℕ} (hn : K.length = n) (row : Row α) (v : Value α) :
    cell n (project K row ++ [v]) = v := by
  have hlen : (project K row).length = n := by rw [project, List.length_map, hn]
  rw [cell, List.getD_append_right _ _ _ _ hlen.le, hlen, Nat.sub_self]
  rfl

theorem project_column {k : ℕ} (hk : k < K.length) (T : List (Row α)) :
    (T.map (project K)).map (cell k) = T.map (cell K[k]) := by
  rw [List.map_map]
  exact List.map_congr_left fun row _ => cell_project hk row

theorem carried_column {k : ℕ} (hk : k < K.length) (v : Row α → Value α) (T : List (Row α)) :
    (T.map fun row => project K row ++ [v row]).map (cell k) = T.map (cell K[k]) := by
  rw [List.map_map]
  exact List.map_congr_left fun row _ => cell_carried hk row (v row)

theorem own_column {n : ℕ} (hn : K.length = n) (v : Row α → Value α) (T : List (Row α)) :
    (T.map fun row => project K row ++ [v row]).map (cell n) = T.map v := by
  rw [List.map_map]
  exact List.map_congr_left fun row _ => cell_own hn row (v row)

theorem flattened_column {k : ℕ} (hk : k < K.length) (l : Row α → List α) (T : List (Row α)) :
    (T.flatMap fun row => (l row).map fun x => project K row ++ [.obj x]).map (cell k) =
      T.flatMap fun row => List.replicate (l row).length (cell K[k] row) := by
  rw [List.map_flatMap]
  refine List.flatMap_congr fun row _ => ?_
  rw [List.map_map, ← List.map_const']
  exact List.map_congr_left fun x _ => cell_carried hk row (.obj x)

theorem flattened_own {n : ℕ} (hn : K.length = n) (l : Row α → List α) (T : List (Row α)) :
    (T.flatMap fun row => (l row).map fun x => project K row ++ [.obj x]).map (cell n) =
      (T.map l).flatten.map .obj := by
  rw [← List.flatMap_def, List.map_flatMap, List.map_flatMap]
  refine List.flatMap_congr fun row _ => ?_
  rw [List.map_map]
  exact List.map_congr_left fun x _ => cell_own hn row (.obj x)

theorem cell_type {row : Row α} (h : row.map Value.type = ts) {k : ℕ} {t : ColType}
    (hk : ts[k]? = some t) : (cell k row).type = t := by
  rw [← h, List.getElem?_map] at hk
  obtain ⟨v, hv, rfl⟩ := Option.map_eq_some_iff.mp hk
  rw [cell, List.getD_eq_getElem?_getD, hv]
  rfl

theorem project_types {row : Row α} (h : row.map Value.type = ts) (hks : ∀ k ∈ K, k < ts.length) :
    (project K row).map Value.type = K.map fun k => ts.getD k .obj := by
  rw [project, List.map_map]
  refine List.map_congr_left fun k hk => ?_
  rw [List.getD_eq_getElem _ _ (hks k hk)]
  exact cell_type h (List.getElem?_eq_getElem (hks k hk))

theorem mapM_rows {R β γ : Type} {f : β → Option γ} {g : R → β} {v : R → γ} {T : List R}
    (h : ∀ row ∈ T, f (g row) = some (v row)) : (T.map g).mapM f = some (T.map v) := by
  induction T with
  | nil => rfl
  | cons row T ih =>
    rw [List.map_cons, List.mapM_cons, h row List.mem_cons_self,
      ih fun row' hr => h row' (List.mem_cons_of_mem row hr)]
    rfl

/-- the columns of `t` are those of the table `T`, and their vectors among `u` -/
structure Shows (u : Multiset ℕ) (m : Memory α) (t : TupleSet) (ts : List ColType)
    (T : List (Row α)) : Prop where
  columns : ∀ k, t.find k ≠ none ↔ k < ts.length
  typed : ∀ row ∈ T, row.map Value.type = ts
  column : ∀ k < ts.length, Provides u m t k (T.map (cell k))

theorem Shows.same (h : Shows u m input ts T) (hs : Cells.Same u m m') : Shows u m' input ts T :=
  ⟨h.columns, h.typed, fun k hk => (h.column k hk).same hs⟩

theorem Shows.getColumn (h : Shows u m input ts T) {k : ℕ} (hk : k < ts.length) :
    ∃ c, input.getColumn m k = some c ∧ c.rows = T.map (cell k) := by
  obtain ⟨s, c, hfind, -, hc, hrows⟩ := (h.column k hk).column
  refine ⟨c, ?_, hrows⟩
  rw [TupleSet.getColumn, hfind]
  exact hc

/-! ## an executor -/

namespace Executor
variable {e : Executor α}

def width (e : Executor α) : ℕ :=
  match e with
  | filter a => a.outAtt
  | _ => e.atts.outAtt + 1

/-- the output tuple set of an executor, between two inputs -/
structure Shape (e : Executor α) (out : TupleSet) : Prop where
  columns : ∀ k, out.find k ≠ none → k < e.width
  own : ∀ s, out.find e.atts.outAtt = some s → s.mustDelete = true

structure WellTyped (e : Executor α) (ts : List ColType) : Prop where
  ok : e.atts.Ok ts
  operand : match e with
    | filter a => ts[a.operand]? = some .bool
    | flatten a => ts[a.operand]? = some .vec
    | _ => True

/-- rows are counted in an `int`, and `HASHONE` looks at a carried column of its output -/
structure Fine (e : Executor α) (T : List (Row α)) : Prop where
  rows : T.length < 2 ^ 31
  special : match e with
    | flatten a => (T.map fun row => (elements a.operand row).length).sum < 2 ^ 31
    | hashOne a => a.operand < a.attsToIncludeInOutput.length
    | _ => True

theorem shape_empty (e : Executor α) : e.Shape TupleSet.empty := ⟨fun _ h => absurd rfl h, nofun⟩

/-- what an executor leaves behind -/
structure Done (e : Executor α) (r u : Multiset ℕ) (ts : List ColType) (T : List (Row α))
    (m m' : Memory α) (out out' : TupleSet) : Prop where
  changed : Changed r {k | k < e.width} m m' out out'
  shape : e.Shape out'
  shows_ : Shows (out'.owned + u) m' out' (e.types ts) (e.sem T)

theorem length_types (hw : e.WellTyped ts) : (e.types ts).length = e.width := by
  have h := hw.ok.length_matches
  cases e with
  | filter a => rw [types, List.length_map, h]; rfl
  | flatten a => rw [types, List.length_append, List.length_map, h]; rfl
  | lambda a f => rw [types, List.length_append, List.length_map, h]; rfl
  | hashOne a => rw [types, List.length_append, List.length_map, h]; rfl

theorem sem_typed (hw : e.WellTyped ts) (ht : ∀ row ∈ T, row.map Value.type = ts) :
    ∀ row ∈ e.sem T, row.map Value.type = e.types ts := by
  have hp : ∀ row ∈ T, (project e.atts.matches_ row).map Value.type = _ := fun row hrow =>
    project_types (ht row hrow) hw.ok.matches_lt
  intro row hrow
  cases e with
  | filter a =>
    obtain ⟨row₀, hrow₀, rfl⟩ := List.mem_map.mp hrow
    exact hp row₀ (List.mem_filter.mp hrow₀).1
  | flatten a =>
    obtain ⟨row₀, hrow₀, hrow⟩ := List.mem_flatMap.mp hrow
    obtain ⟨x, -, rfl⟩ := List.mem_map.mp hrow
    rw [List.map_append]
    exact congrArg (· ++ _) (hp row₀ hrow₀)
  | lambda a f =>
    obtain ⟨row₀, hrow₀, rfl⟩ := List.mem_map.mp hrow
    rw [List.map_append, List.map_singleton, f.apply_type]
    exact congrArg (· ++ _) (hp row₀ hrow₀)
  | hashOne a =>
    obtain ⟨row₀, hrow₀, rfl⟩ := List.mem_map.mp hrow
    rw [List.map_append]
    exact congrArg (· ++ _) (hp row₀ hrow₀)

theorem done_of_holds (hs : e.Shape out) (hw : e.WellTyped ts)
    (ht : ∀ row ∈ T, row.map Value.type = ts) (hc : Changed r {k | k < e.width} m m' out out')
    (hown : ∀ s, out'.find e.atts.outAtt = some s → s.mustDelete = true)
    (hh : ∀ k < e.width, Holds u m' out' k ((e.sem T).map (cell k))) :
    e.Done r u ts T m m' out out' := by
  have hcols : ∀ k, out'.find k ≠ none → k < e.width := fun k hk => by
    by_contra hge
    rw [hc.find k hge] at hk
    exact hge (hs.columns k hk)
  refine ⟨hc, ⟨hcols, hown⟩, fun k => ?_, sem_typed hw ht, fun k hk => ?_⟩
  · rw [length_types hw]
    refine ⟨hcols k, fun hk => ?_⟩
    obtain ⟨s, -, hfind, -⟩ := (hh k hk).find
    rw [hfind]
    nofun
  · rw [length_types hw] at hk
    exact (hh k hk).provides

/-! ### the four executors -/

theorem filter_spec {a : Atts} (ho : m.Owned (out.owned + r)) (hu : u ⊆ r) (hs : (filter a : Executor α).Shape out)
    (hin : Shows u m input ts T) (hw : (filter a : Executor α).WellTyped ts)
    (hf : (filter a).Fine T) : ∃ m' out', FilterExecutor.process a m out input = some (m', out') ∧
      (filter a).Done r u ts T m m' out out' := by
  have ok : a.Ok ts := hw.ok
  obtain ⟨hwhich, hlt⟩ := ok.operand_eq
  have hlen := ok.length_matches
  have hwidth : (filter a : Executor α).width = a.outAtt := rfl
  obtain ⟨m₁, o₁, hrun₁, hc₁, hh₁⟩ := TupleSetSetupMachine.setup_spec (K := a.matches_) ho hu
    (X := fun i => T.map (cell i)) fun i hi => hin.column i (ok.matches_lt i hi)
  obtain ⟨c, hcol, hrows⟩ := (hin.same (hc₁.same.mono hu)).getColumn hlt
  have hbool : c.rows.mapM Value.asBool = some (T.map (selected a.operand)) := by
    rw [hrows]
    refine mapM_rows fun row hrow => ?_
    obtain ⟨b, hb⟩ := Value.asBool_isSome (cell_type (hin.typed row hrow) hw.operand)
    rw [selected, hb]
    rfl
  have hcols₁ : ∀ k, o₁.find k ≠ none ↔ k < a.outAtt := by
    intro k
    rw [← hlen]
    refine ⟨fun hk => ?_, fun hk => ?_⟩
    · by_contra hge
      rw [hc₁.find k hge] at hk
      exact hge (hlen ▸ hs.columns k hk)
    · obtain ⟨s, -, hfind, -⟩ := (hh₁ k hk).find
      rw [hfind]
      nofun
  have hnum : o₁.getNumColumns = a.outAtt := o₁.keyed.length_eq hcols₁
  -- every column is filtered on its own
  obtain ⟨m', o', hrun', hc', hh'⟩ := forEach_spec (r := r) (g := fun i => i)
    (f := fun i m t => t.filterColumn m i (T.map (selected a.operand)))
    (P := fun i m t => Holds u m t i (T.map (cell (a.matches_.getD i 0))))
    (Q := fun i m t => Holds u m t i
      ((T.filter (selected a.operand)).map (cell (a.matches_.getD i 0))))
    (fun hk hc hp => hp.changed hu hc hk) (fun hk hc hp => hp.changed hu hc hk)
    (fun {i m t} ho hp => by
      obtain ⟨s, c, hfind, hc, hrows⟩ := hp.find
      obtain ⟨m', t', hrun, hc', hh'⟩ := filterColumn_spec ho hfind hc (Column.filter_rows hrows hf.rows)
      exact ⟨m', t', hrun, hc', hh'⟩)
    (List.range a.outAtt) (by rw [List.map_id']; exact List.nodup_range) hc₁.owned
    (fun i hi => by
      have hi : i < a.matches_.length := hlen ▸ List.mem_range.mp hi
      rw [List.getD_eq_getElem _ _ hi]
      exact hh₁ i hi)
  have hc : Changed r {k | k < (filter a : Executor α).width} m m' out o' := by
    rw [hwidth, ← hlen]
    refine hc₁.trans (hc'.mono fun k hk => ?_)
    obtain ⟨i, hi, rfl⟩ := List.mem_map.mp hk
    exact hlen ▸ List.mem_range.mp hi
  refine ⟨m', o', ?_, done_of_holds hs hw hin.typed hc (fun s hfind => ?_) fun k hk => ?_⟩
  · simp only [FilterExecutor.process, hrun₁, hwhich, hcol, hbool, hnum, Option.bind_eq_bind,
      Option.bind_some]
    exact hrun'
  · have hsame : o'.find a.outAtt = out.find a.outAtt := hc.find _ (lt_irrefl a.outAtt)
    exact hs.own s (hsame.symm.trans hfind)
  · have hk' : k < a.matches_.length := hlen ▸ hk
    have hrow := hh' k (List.mem_range.mpr hk)
    rw [List.getD_eq_getElem _ _ hk'] at hrow
    rw [sem, project_column hk']
    exact hrow

theorem flatten_spec [Inhabited α] {a : Atts} (ho : m.Owned (out.owned + r)) (hu : u ⊆ r)
    (hs : (flatten a : Executor α).Shape out) (hin : Shows u m input ts T)
    (hw : (flatten a : Executor α).WellTyped ts) (hf : (flatten a).Fine T) :
    ∃ m' out', FlattenExecutor.process a m out input = some (m', out') ∧
      (flatten a).Done r u ts T m m' out out' := by
  have ok : a.Ok ts := hw.ok
  obtain ⟨hwhich, hlt⟩ := ok.operand_eq
  have hlen := ok.length_matches
  have hwidth : (flatten a : Executor α).width = a.outAtt + 1 := rfl
  have htotal : (T.map fun row => (elements a.operand row).length).sum < 2 ^ 31 := hf.special
  obtain ⟨c, hcol, hrows⟩ := hin.getColumn hlt
  have hvec : c.rows.mapM Value.asVec = some (T.map (elements a.operand)) := by
    rw [hrows]
    refine mapM_rows fun row hrow => ?_
    obtain ⟨l, hl⟩ := Value.asVec_isSome (cell_type (hin.typed row hrow) hw.operand)
    rw [elements, hl]
    rfl
  have hcounts : (T.map (elements a.operand)).map List.length =
      T.map fun row => (elements a.operand row).length := List.map_map
  obtain ⟨m₁, o₁, hrun₁, hc₁, hh₁⟩ := TupleSetSetupMachine.replicate_spec (K := a.matches_)
    (N := T.map fun row => (elements a.operand row).length) (X := fun i => T.map (cell i))
    (Y := fun i => T.flatMap fun row =>
      List.replicate (elements a.operand row).length (cell i row)) ho hu
    (fun i hi => hin.column i (ok.matches_lt i hi))
    (fun i _ c hrows => ⟨_, Column.replicate_rows hrows hf.rows htotal, rfl⟩) 0
  have hc₁' : Changed r {k | k < a.outAtt} m m₁ out o₁ := hc₁.mono fun k hk => hlen ▸ hk.2
  obtain ⟨m₂, o₂, hrun₂, -, -, hown, hwrite⟩ := ownColumn_spec hu hc₁'
    (X := fun k => T.flatMap fun row =>
      List.replicate (elements a.operand row).length (cell (a.matches_.getD k 0) row))
    (fun k hk => by
      have hk' : k < a.matches_.length := hlen ▸ hk
      rw [List.getD_eq_getElem _ _ hk']
      exact hh₁ k hk') hs.own (.obj default)
  obtain ⟨m₃, hrun₃, hc₃, hh₃, hnew⟩ :=
    hwrite ((T.map (elements a.operand)).flatten.map .obj)
  refine ⟨m₃, o₂, ?_, done_of_holds hs hw hin.typed hc₃ hown fun k hk => ?_⟩
  · simp only [FlattenExecutor.process, hwhich, hcol, hvec, hcounts, hrun₁, hrun₂, hrun₃,
      Option.bind_eq_bind, Option.bind_some, List.length_map, if_pos (And.intro hf.rows htotal)]
    rfl
  · rw [sem]
    rcases Nat.lt_succ_iff_lt_or_eq.mp hk with hk | rfl
    · have hk' : k < a.matches_.length := hlen ▸ hk
      have hrow := hh₃ k hk
      rw [List.getD_eq_getElem _ _ hk'] at hrow
      rw [flattened_column hk']
      exact hrow
    · have hnew' := flattened_own hlen (elements a.operand) T
      exact hnew' ▸ hnew

/-- the columns are copied, and the output column gets one value a row -/
theorem done_of_own {a : Atts} {v : Row α → Value α} (he : e.atts = a) (hwidth : e.width = a.outAtt + 1)
    (hsem : ∀ T, e.sem T = T.map fun row => project a.matches_ row ++ [v row])
    (hs : e.Shape out) (hin : Shows u m input ts T) (hw : e.WellTyped ts)
    (hc : Changed r {k | k < a.outAtt + 1} m m' out out')
    (hown : ∀ s, out'.find a.outAtt = some s → s.mustDelete = true)
    (hh : ∀ k < a.outAtt, Holds u m' out' k (T.map (cell (a.matches_.getD k 0))))
    (hnew : Holds u m' out' a.outAtt (T.map v)) : e.Done r u ts T m m' out out' := by
  have hlen : a.matches_.length = a.outAtt := he ▸ hw.ok.length_matches
  rw [← hwidth] at hc
  rw [← he] at hown
  refine done_of_holds hs hw hin.typed hc hown fun k hk => ?_
  rw [hsem]
  rw [hwidth] at hk
  rcases Nat.lt_succ_iff_lt_or_eq.mp hk with hk | rfl
  · have hk' : k < a.matches_.length := hlen ▸ hk
    have hrow := hh k hk
    rw [List.getD_eq_getElem _ _ hk'] at hrow
    rw [carried_column hk']
    exact hrow
  · rw [own_column hlen]
    exact hnew

/-- what `setup` and `createColumn` leave for the loop of a lambda -/
theorem setup_own {a : Atts} (ok : a.Ok ts) (ho : m.Owned (out.owned + r)) (hu : u ⊆ r)
    (hown : ∀ s, out.find a.outAtt = some s → s.mustDelete = true) (hin : Shows u m input ts T)
    (zero : Value α) :
    ∃ m₁ out₁ m₂ out₂, TupleSetSetupMachine.setup a.matches_ m out input = some (m₁, out₁) ∧
      createColumn m₁ out₁ a.outAtt zero = some (m₂, out₂) ∧ Cells.Same r m m₁ ∧
      (∀ k < a.outAtt, Holds u m₂ out₂ k (T.map (cell (a.matches_.getD k 0)))) ∧
      (∀ s, out₂.find a.outAtt = some s → s.mustDelete = true) ∧
      ∀ rows, ∃ m₃, writeColumn m₂ out₂ a.outAtt rows = some m₃ ∧
        Changed r {k | k < a.outAtt + 1} m m₃ out out₂ ∧
        (∀ k < a.outAtt, Holds u m₃ out₂ k (T.map (cell (a.matches_.getD k 0)))) ∧
        Holds u m₃ out₂ a.outAtt rows := by
  have hlen := ok.length_matches
  obtain ⟨m₁, out₁, hrun₁, hc₁, hh₁⟩ := TupleSetSetupMachine.setup_spec (K := a.matches_) ho hu
    (X := fun i => T.map (cell i)) fun i hi => hin.column i (ok.matches_lt i hi)
  rw [hlen] at hc₁
  obtain ⟨m₂, out₂, hrun₂, hh₂, -, hown₂, hwrite⟩ := ownColumn_spec hu hc₁
    (X := fun k => T.map (cell (a.matches_.getD k 0)))
    (fun k hk => by
      have hk' : k < a.matches_.length := hlen ▸ hk
      rw [List.getD_eq_getElem _ _ hk']
      exact hh₁ k hk') hown zero
  exact ⟨m₁, out₁, m₂, out₂, hrun₁, hrun₂, hc₁.same, hh₂, hown₂, hwrite⟩

theorem hashOne_spec {a : Atts} (ho : m.Owned (out.owned + r)) (hu : u ⊆ r)
    (hs : (hashOne a : Executor α).Shape out) (hin : Shows u m input ts T)
    (hw : (hashOne a : Executor α).WellTyped ts) (hf : (hashOne a).Fine T) :
    ∃ m' out', HashOneExecutor.process a m out input = some (m', out') ∧
      (hashOne a).Done r u ts T m m' out out' := by
  have ok : a.Ok ts := hw.ok
  obtain ⟨hwhich, -⟩ := ok.operand_eq
  have hcarried : a.operand < a.outAtt := hf.special
  obtain ⟨m₁, o₁, m₂, o₂, hrun₁, hrun₂, -, hh₂, hown₂, hwrite⟩ := setup_own ok ho hu hs.own hin (.num 0)
  obtain ⟨s, c, hfind, hc, hrows⟩ := (hh₂ _ hcarried).find
  have hnum : o₂.getNumRows m₂ a.operand = some (T.length : ℤ) := by
    rw [getNumRows, hfind]
    show (m₂.cell s.ptr).map _ = _
    rw [hc, Option.map_some, hrows, List.length_map, JoinPairArray.toInt_of_lt hf.rows]
  obtain ⟨m₃, hrun₃, hc₃, hh₃, hnew⟩ := hwrite (T.map fun _ => .num 1)
  refine ⟨m₃, o₂, ?_, done_of_own rfl rfl (fun _ => rfl) hs hin hw hc₃ hown₂ hh₃ hnew⟩
  simp only [HashOneExecutor.process, hrun₁, hrun₂, hwhich, hnum, Option.bind_eq_bind,
    Option.bind_some, Int.toNat_natCast, if_pos (Int.natCast_nonneg T.length), ← List.map_const',
    hrun₃]
  rfl

/-- the rows of the input columns, one after another -/
theorem lambda_rows {l : List ℕ} {cols : List (Column α)} (f : List (Value α) → Value α)
    (h : List.Forall₂ (fun k c => c.rows = T.map (cell k)) l cols) :
    ((List.range T.length).mapM fun i => (cols.mapM fun c : Column α => c.rows[i]?).map f) =
      some (T.map fun row => f (project l row)) := by
  have hrow : ∀ i (hi : i < T.length), (cols.mapM fun c : Column α => c.rows[i]?) =
      some (project l T[i]) := by
    intro i hi
    induction h with
    | nil => rfl
    | cons hc _ ih =>
      have hcell := congrArg (·[i]?) hc
      rw [List.getElem?_map, List.getElem?_eq_getElem hi] at hcell
      rw [List.mapM_cons, hcell, ih]
      rfl
  have hall := mapM_rows (g := id) (T := List.range T.length)
    (f := fun i => (cols.mapM fun c : Column α => c.rows[i]?).map f)
    (v := fun i => f (project l (T.getD i []))) fun i hi => by
      have hi := List.mem_range.mp hi
      show (cols.mapM fun c : Column α => c.rows[i]?).map f = _
      rw [hrow i hi, List.getD_eq_getElem _ _ hi]
      rfl
  rw [List.map_id] at hall
  rw [hall]
  refine congrArg some (List.ext_getElem (by simp) fun i hi hi' => ?_)
  rw [List.length_map, List.length_range] at hi
  rw [List.getElem_map, List.getElem_map, List.getElem_range, List.getD_eq_getElem _ _ hi]

theorem lambda_spec {a : Atts} {f : RowFunction α} (ho : m.Owned (out.owned + r)) (hu : u ⊆ r)
    (hs : (lambda a f).Shape out) (hin : Shows u m input ts T) (hw : (lambda a f).WellTyped ts)
    (hf : (lambda a f).Fine T) :
    ∃ m' out', LambdaExecutor.process f a m out input = some (m', out') ∧
      (lambda a f).Done r u ts T m m' out out' := by
  have ok : a.Ok ts := hw.ok
  obtain ⟨w, l, hatts, -, hlt⟩ := ok.inputAtts_cons
  obtain ⟨m₁, o₁, m₂, o₂, hrun₁, hrun₂, hsame, -, hown₂, hwrite⟩ := setup_own ok ho hu hs.own hin f.zero
  obtain ⟨cols, hcols, hall⟩ := Grid.mapM_spec (l := a.inputAtts)
    fun i hi => (hin.same (hsame.mono hu)).getColumn (ok.inputAtts_lt i hi)
  obtain ⟨first, others, rfl, hfirst⟩ : ∃ first others, cols = first :: others ∧
      first.rows = T.map (cell w) := by
    rw [hatts] at hall
    cases hall with
    | cons hc _ => exact ⟨_, _, rfl, hc⟩
  have hnum : JoinPairArray.toInt first.rows.length = T.length := by
    rw [hfirst, List.length_map, JoinPairArray.toInt_of_lt hf.rows]
  have hrows := lambda_rows f.apply hall
  obtain ⟨m₃, hrun₃, hc₃, hh₃, hnew⟩ := hwrite (T.map fun row => f.apply (project a.inputAtts row))
  refine ⟨m₃, o₂, ?_, done_of_own rfl rfl (fun _ => rfl) hs hin hw hc₃ hown₂ hh₃ hnew⟩
  simp only [LambdaExecutor.process, hrun₁, hcols, hrun₂, hnum, hrows, hrun₃, Option.bind_eq_bind,
    Option.bind_some, List.head?_cons, Int.toNat_natCast, if_pos (Int.natCast_nonneg T.length)]
  rfl

/-- **What an executor does** with one input. -/
theorem process_spec [Inhabited α] (ho : m.Owned (out.owned + r)) (hu : u ⊆ r) (hs : e.Shape out)
    (hin : Shows u m input ts T) (hw : e.WellTyped ts) (hf : e.Fine T) :
    ∃ m' out', e.process m out input = some (m', out') ∧ e.Done r u ts T m m' out out' := by
  cases e with
  | filter a => exact filter_spec ho hu hs hin hw hf
  | flatten a => exact flatten_spec ho hu hs hin hw hf
  | lambda a f => exact lambda_spec ho hu hs hin hw hf
  | hashOne a => exact hashOne_spec ho hu hs hin hw hf

end Executor

end Netsdb
