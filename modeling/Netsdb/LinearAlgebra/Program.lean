import Netsdb.LinearAlgebra.Evaluate
import Mathlib.Algebra.Order.Field.Rat

/-!
# Running a program (`LAStatementNode::evaluateQuery`)

* `evaluateQuery`       a statement: its expression is evaluated, and what it gives is stored;
* `runStatements`       one statement after the other, until one ends with an error;
* `Variables.run`       the matrices that the variables of a program stand for;
* `program_represents`  a run stores them, and it ends with an error just where one of them is missing.
-/

set_option linter.unusedSectionVars false

namespace Netsdb
namespace LinearAlgebra

variable {F : Type}

structure Statement where
  identifier : String
  expression : Expr
deriving DecidableEq, Repr

section
variable [Field F] [LinearOrder F]

def Computation.getSetName : Computation F → Option SetName
  | .scan setName => some setName
  | _ => none

/-- `addToIdentifierPDBSetNameMap` and `addToIdentifierDimensionMap` -/
def LAPDBInstance.link (inst : LAPDBInstance F) (identifier : String) (setName : Option SetName)
    (dim : LADimension) : LAPDBInstance F :=
  { inst with
    identifierPDBSetNameMap := Function.update inst.identifierPDBSetNameMap identifier setName
    identifierDimensionMap := Function.update inst.identifierDimensionMap identifier (some dim) }

/-- the result is written, and the next job has another number -/
def LAPDBInstance.store (inst : LAPDBInstance F) (setName : SetName) (out : List (MatrixBlock F)) :
    LAPDBInstance F :=
  { inst with
    dispatchCount := inst.dispatchCount + 1
    sets := Function.update inst.sets setName (some out)
    cachedSet := Function.update inst.cachedSet setName true }

/-- the instances that a statement may lead to; `none` where the program ends with an error -/
def evaluateQuery (inverse : Inverse F) (files : Files F) (st : Statement) (inst : LAPDBInstance F)
    (res : Option (LAPDBInstance F)) : Prop :=
  match evaluate files st.expression inst with
  | none => res = none
  | some (query, dim, inst) =>
    if st.expression.isSyntaxSugarInitializer then
      res = some (inst.link st.identifier query.getSetName dim)
    else
      let outputSetName := SetName.result st.identifier
      if inst.cachedSet outputSetName ∨ (inst.sets outputSetName).isSome then res = none
      else Exits inverse inst.sets query ∧ res = none ∨
        ∃ out, Gives inverse inst.sets query out ∧
          res = some ((inst.store outputSetName out).link st.identifier (some outputSetName) dim)

def runStatements (inverse : Inverse F) (files : Files F) : List Statement → LAPDBInstance F →
    Option (LAPDBInstance F) → Prop
  | [], inst, res => res = some inst
  | st :: statements, inst, res => evaluateQuery inverse files st inst none ∧ res = none ∨
      ∃ inst', evaluateQuery inverse files st inst (some inst') ∧
        runStatements inverse files statements inst' res

def LAPDBInstance.start (F : Type) : LAPDBInstance F :=
  ⟨0, fun _ => false, fun _ => none, fun _ => none, fun _ => none⟩

/-! ## what programs mean -/

/-- the variables, and those among them that were computed, which are not computed again -/
structure Variables (F : Type) where
  env : Bindings F
  computed : String → Bool

def Variables.start (F : Type) : Variables F := ⟨fun _ => none, fun _ => false⟩

noncomputable def Variables.step (files : Files F) (v : Variables F) (st : Statement) :
    Option (Variables F) :=
  (denote files v.env st.expression).bind fun a =>
    if st.expression.isSyntaxSugarInitializer then
      some { v with env := Function.update v.env st.identifier (some a) }
    else if v.computed st.identifier then none
    else some ⟨Function.update v.env st.identifier (some a), Function.update v.computed st.identifier true⟩

noncomputable def Variables.run (files : Files F) : Variables F → List Statement → Option (Variables F)
  | v, [] => some v
  | v, st :: statements => (v.step files st).bind fun v => Variables.run files v statements

/-- each expression is one of the language, with the variables that it has -/
def Variables.Fit (files : Files F) : Variables F → List Statement → Prop
  | _, [] => True
  | v, st :: statements => st.expression.Fits files v.env ∧
      ∀ v', v.step files st = some v' → Variables.Fit files v' statements

/-- an instance has the sets of the variables -/
structure Stores (inst : LAPDBInstance F) (v : Variables F) : Prop where
  agrees : Agrees inst v.env
  computed : ∀ id, inst.cachedSet (.result id) = v.computed id ∧
    (inst.sets (.result id)).isSome = v.computed id

variable {files : Files F} {inverse : Inverse F} {inst inst' : LAPDBInstance F} {v v' : Variables F}
  {st : Statement} {dim : LADimension} {A : Mat F} {blocks : List (MatrixBlock F)} {setName : SetName}

theorem stores_start : Stores (.start F) (.start F) :=
  ⟨⟨fun _ _ _ h => Option.some_ne_none _ h.symm |>.elim, fun _ _ => rfl, fun _ _ _ => ⟨rfl, rfl⟩⟩,
    fun _ => ⟨rfl, rfl⟩⟩

/-- a variable is bound to a set -/
theorem Agrees.link {env : Bindings F} (h : Agrees inst env) (hpos : dim.Positive)
    (hset : inst.sets setName = some blocks) (hrep : Represents dim blocks A) (id : String) :
    Agrees (inst.link id (some setName) dim) (Function.update env id (some (dim, A))) where
  bound name dim' A' hname := by
    by_cases hid : name = id
    · subst hid
      rw [Function.update_self] at hname
      obtain ⟨rfl, rfl⟩ := Prod.mk.inj (Option.some.inj hname)
      exact ⟨hpos, Function.update_self .., setName, blocks, Function.update_self .., hset, hrep⟩
    · rw [Function.update_of_ne hid] at hname
      obtain ⟨hpos', hdim, setName', blocks', hmap, hset', hrep'⟩ := h.bound name dim' A' hname
      exact ⟨hpos', (Function.update_of_ne hid ..).trans hdim, setName', blocks',
        (Function.update_of_ne hid ..).trans hmap, hset', hrep'⟩
  unbound name hname := by
    by_cases hid : name = id
    · subst hid
      rw [Function.update_self] at hname
      exact (Option.some_ne_none _ hname).elim
    · rw [Function.update_of_ne hid] at hname
      exact (Function.update_of_ne hid ..).trans (h.unbound name hname)
  fresh := h.fresh

theorem Agrees.store {env : Bindings F} (h : Agrees inst env) (id : String)
    (hnew : inst.sets (.result id) = none) (out : List (MatrixBlock F)) :
    Agrees (inst.store (.result id) out) env where
  bound name dim A hname := by
    obtain ⟨hpos, hdim, setName, blocks, hmap, hset, hrep⟩ := h.bound name dim A hname
    have hne : setName ≠ .result id := by
      rintro rfl
      exact Option.some_ne_none _ (hset.symm.trans hnew)
    have hset' : Function.update inst.sets (.result id) (some out) setName = some blocks := by
      rw [Function.update_of_ne hne, hset]
    exact ⟨hpos, hdim, setName, blocks, hmap, hset', hrep⟩
  unbound := h.unbound
  fresh method k hk := by
    have hk : inst.dispatchCount + 1 ≤ k := hk
    have hne : SetName.init method k ≠ .result id := by
      intro he
      cases he
    obtain ⟨hs, hc⟩ := h.fresh method k (by omega)
    have hs' : Function.update inst.sets (.result id) (some out) (.init method k) = none := by
      rw [Function.update_of_ne hne, hs]
    exact ⟨hs', (Function.update_of_ne hne true inst.cachedSet).trans hc⟩

/-! ## runs -/

/-- a statement ends with an error, or the variables are stored -/
def Meets (v : Option (Variables F)) (res : Option (LAPDBInstance F)) : Prop :=
  match v, res with
  | none, none => True
  | some v, some inst => Stores inst v
  | _, _ => False

theorem Stores.link {id : String} (h : Stores inst v) (hagrees : Agrees inst' v.env)
    (hgrows : Grows inst inst') (hpos : dim.Positive) (hset : inst'.sets setName = some blocks)
    (hrep : Represents dim blocks A) : Stores (inst'.link id (some setName) dim)
      { v with env := Function.update v.env id (some (dim, A)) } where
  agrees := hagrees.link hpos hset hrep id
  computed id' := by
    obtain ⟨hs, hc⟩ := hgrows.result id'
    obtain ⟨hcached, hsets⟩ := h.computed id'
    exact ⟨hc.trans hcached, (congrArg Option.isSome hs).trans hsets⟩

theorem Stores.store {id : String} {out : List (MatrixBlock F)} (h : Stores inst v)
    (hagrees : Agrees inst' v.env) (hgrows : Grows inst inst') (hpos : dim.Positive)
    (hnew : inst'.sets (.result id) = none) (hrep : Represents dim out A) :
    Stores ((inst'.store (.result id) out).link id (some (.result id)) dim)
      ⟨Function.update v.env id (some (dim, A)), Function.update v.computed id true⟩ where
  agrees := (hagrees.store id hnew out).link hpos (Function.update_self ..) hrep id
  computed id' := by
    show Function.update inst'.cachedSet (.result id) true (.result id') =
        Function.update v.computed id true id' ∧
      (Function.update inst'.sets (.result id) (some out) (.result id')).isSome =
        Function.update v.computed id true id'
    by_cases hid : id' = id
    · subst hid
      rw [Function.update_self, Function.update_self, Function.update_self]
      exact ⟨rfl, rfl⟩
    · have hne : SetName.result id' ≠ .result id := fun he => hid (SetName.result.inj he)
      obtain ⟨hs, hc⟩ := hgrows.result id'
      obtain ⟨hcached, hsets⟩ := h.computed id'
      rw [Function.update_of_ne hid, Function.update_of_ne hne, Function.update_of_ne hne, hc, hs]
      exact ⟨hcached, hsets⟩

theorem initializer_of_sugar {e : Expr} (h : e.isSyntaxSugarInitializer = true) :
    ∃ method dim, e = .initializer method dim := by
  cases e with
  | initializer method dim => exact ⟨method, dim, rfl⟩
  | _ => exact (Bool.false_ne_true h).elim

theorem evaluateQuery_spec (hinv : inverse.Inverts) (h : Stores inst v)
    (hfits : st.expression.Fits files v.env) :
    (∃ res, evaluateQuery inverse files st inst res) ∧
      ∀ res, evaluateQuery inverse files st inst res → Meets (v.step files st) res := by
  cases evaluate_spec hinv h.agrees hfits with
  | rejected hd he =>
    have hquery : evaluateQuery inverse files st inst = fun res => res = none := by
      funext res
      rw [evaluateQuery, he]
    rw [Variables.step, hd, hquery]
    refine ⟨⟨none, rfl⟩, fun res hres => ?_⟩
    rw [hres]
    trivial
  | accepted dim A g inst' hd he hpos hagrees hgrows hcomputes =>
    have hcomp := hcomputes inst'.sets fun _ _ hs => hs
    obtain ⟨hcached, hsets⟩ := h.computed st.identifier
    obtain ⟨hs, hc⟩ := hgrows.result st.identifier
    rw [← hc] at hcached
    rw [← hs] at hsets
    rw [Variables.step, hd, Option.bind_some]
    by_cases hsugar : st.expression.isSyntaxSugarInitializer = true
    · obtain ⟨method, dim', hexp⟩ := initializer_of_sugar hsugar
      rw [hexp] at hfits hd he
      obtain ⟨inst₁, heval, hset, -⟩ := initializer_spec h.agrees
      obtain ⟨rfl, hrest⟩ := Prod.mk.inj (Option.some.inj (he.symm.trans heval))
      obtain ⟨rfl, rfl⟩ := Prod.mk.inj hrest
      obtain ⟨-, rfl⟩ := Prod.mk.inj (Option.some.inj hd)
      have hquery : evaluateQuery inverse files st inst = fun res => res = some (inst'.link st.identifier
          (some (.init method.text inst.dispatchCount)) dim) := by
        funext res
        rw [evaluateQuery, hexp, he]
        rfl
      rw [hquery, if_pos hsugar]
      refine ⟨⟨_, rfl⟩, fun res hres => ?_⟩
      rw [hres]
      exact h.link hagrees hgrows hpos hset (method_represents hfits.2)
    · by_cases hcomputed : v.computed st.identifier = true
      · have hquery : evaluateQuery inverse files st inst = fun res => res = none := by
          funext res
          rw [evaluateQuery, he]
          dsimp only
          rw [if_neg hsugar, if_pos (.inl (hcached.trans hcomputed))]
        rw [hquery, if_neg hsugar, if_pos hcomputed]
        refine ⟨⟨none, rfl⟩, fun res hres => ?_⟩
        rw [hres]
        trivial
      · have hnew : inst'.sets (.result st.identifier) = none := by
          cases hset : inst'.sets (.result st.identifier) with
          | none => rfl
          | some l =>
            rw [hset] at hsets
            exact (hcomputed hsets.symm).elim
        have hquery : evaluateQuery inverse files st inst = fun res =>
            Exits inverse inst'.sets g ∧ res = none ∨ ∃ out, Gives inverse inst'.sets g out ∧
              res = some ((inst'.store (.result st.identifier) out).link st.identifier
                (some (.result st.identifier)) dim) := by
          funext res
          rw [evaluateQuery, he]
          dsimp only
          rw [if_neg hsugar, if_neg]
          rintro (hc | hs)
          · exact hcomputed (hcached.symm.trans hc)
          · exact hcomputed (hsets.symm.trans hs)
        rw [hquery, if_neg hsugar, if_neg hcomputed]
        obtain ⟨out, hout⟩ := hcomp.exists_out
        refine ⟨⟨_, .inr ⟨out, hout, rfl⟩⟩, fun res hres => ?_⟩
        rcases hres with ⟨hexit, -⟩ | ⟨out, hout, rfl⟩
        · exact (hcomp.no_exit hexit).elim
        · exact h.store hagrees hgrows hpos hnew (hcomp.represents out hout)

theorem runStatements_spec (hinv : inverse.Inverts) {statements : List Statement} (h : Stores inst v)
    (hfit : Variables.Fit files v statements) :
    (∃ res, runStatements inverse files statements inst res) ∧
      ∀ res, runStatements inverse files statements inst res →
        Meets (Variables.run files v statements) res := by
  induction statements generalizing inst v with
  | nil =>
    refine ⟨⟨_, rfl⟩, fun res hres => ?_⟩
    rw [show res = some inst from hres]
    exact h
  | cons st statements ih =>
    obtain ⟨hfits, hrest⟩ := hfit
    obtain ⟨⟨res, hres⟩, hmeets⟩ := evaluateQuery_spec hinv h hfits
    have hone : ∀ inst', evaluateQuery inverse files st inst (some inst') →
        ∃ v', v.step files st = some v' ∧ Stores inst' v' := by
      intro inst' hquery
      have hm := hmeets _ hquery
      cases hstep : v.step files st with
      | none =>
        rw [hstep] at hm
        exact hm.elim
      | some v' =>
        rw [hstep] at hm
        exact ⟨v', rfl, hm⟩
    refine ⟨?_, fun res' hres' => ?_⟩
    · cases res with
      | none => exact ⟨none, .inl ⟨hres, rfl⟩⟩
      | some inst' =>
        obtain ⟨v', hstep, hstores⟩ := hone inst' hres
        obtain ⟨res', hres'⟩ := (ih hstores (hrest v' hstep)).1
        exact ⟨res', .inr ⟨inst', hres, hres'⟩⟩
    · rw [Variables.run]
      rcases hres' with ⟨hquery, rfl⟩ | ⟨inst', hquery, hrun⟩
      · have hm := hmeets none hquery
        cases hstep : v.step files st with
        | none => trivial
        | some v' =>
          rw [hstep] at hm
          exact hm.elim
      · obtain ⟨v', hstep, hstores⟩ := hone inst' hquery
        rw [hstep, Option.bind_some]
        exact (ih hstores (hrest v' hstep)).2 res' hrun

end

/-! ### a matrix of four blocks, in a file that has them in another order -/

noncomputable def matrixInverse : Inverse ℚ := fun _ M => M⁻¹

theorem matrixInverse_inverts : matrixInverse.Inverts := fun _ M hunit => M.mul_nonsing_inv hunit

def gramFiles : Files ℚ := fun _ k =>
  match k with
  | 0 => ⟨0, 1, fun _ => .int 2⟩
  | 1 => ⟨0, 0, fun _ => .int 1⟩
  | 2 => ⟨1, 1, fun _ => .int 4⟩
  | _ => ⟨1, 0, fun _ => .int 3⟩

def fourOnes : LADimension := ⟨1, 1, 2, 2⟩

theorem fourOnes_positive : fourOnes.Positive := ⟨Nat.one_pos, Nat.one_pos, Nat.two_pos, Nat.two_pos⟩

/-- `A = load (…)`, `B = A '* A`, `s = rowSum (B + identity (…))` -/
def gram : List Statement :=
  [⟨"A", .initializer (.load "a") fourOnes⟩,
    ⟨"B", .binary .transposeMultiply (.identifier "A") (.identifier "A")⟩,
    ⟨"s", .fold .rowSum (.recursive (.binary .add (.identifier "B") (.initializer .identity fourOnes)))⟩]

theorem gram_fits : Variables.Fit gramFiles (.start ℚ) gram := by
  have hfile : Method.Fits gramFiles (.load "a") fourOnes := by
    show List.Perm _ _
    decide
  refine ⟨⟨fourOnes_positive, hfile⟩, fun v hv => ?_⟩
  obtain rfl := Option.some.inj hv
  refine ⟨⟨trivial, trivial⟩, fun v hv => ?_⟩
  obtain rfl := Option.some.inj hv
  exact ⟨⟨trivial, fourOnes_positive, rfl⟩, fun _ _ => trivial⟩

end LinearAlgebra
end Netsdb
