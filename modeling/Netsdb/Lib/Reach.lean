import Mathlib.Logic.Relation

/-!
# Runs of a partial step function

A machine is a partial step function `step : σ → α → Option σ` (`none`: the action is not
possible in this state).  `Reach step cond s t` says that a run from `s` to `t` exists in which
every action meets the condition `cond` in the state where it is taken.

* `Reach.inv`      the invariant rule: what holds at the start and is kept by every step that
                   meets the condition holds in every state reached;
* `Reach.of_run`   a list of actions that `run` executes, each checked against the condition, is
  such a run.
-/

namespace Machine
variable {σ α : Type*}

/-- the states reached from `s` by runs whose steps all meet `cond` -/
inductive Reach (step : σ → α → Option σ) (cond : σ → α → Prop) (s : σ) : σ → Prop
  | refl : Reach step cond s s
  | tail {t u : σ} (a : α) : Reach step cond s t → cond t a → step t a = some u →
      Reach step cond s u

/-- **Invariant rule.** -/
theorem Reach.inv {step : σ → α → Option σ} {cond : σ → α → Prop} {s t : σ} {P : σ → Prop}
    (h : Reach step cond s t) (h0 : P s)
    (hs : ∀ t a u, P t → cond t a → step t a = some u → P u) : P t := by
  induction h with
  | refl => exact h0
  | tail a _ hc he ih => exact hs _ a _ ih hc he

theorem Reach.trans {step : σ → α → Option σ} {cond : σ → α → Prop} {s t u : σ}
    (h1 : Reach step cond s t) (h2 : Reach step cond t u) : Reach step cond s u := by
  induction h2 with
  | refl => exact h1
  | tail a _ hc he ih => exact ih.tail a hc he

/-- a weaker condition allows more runs -/
theorem Reach.mono {step : σ → α → Option σ} {cond cond' : σ → α → Prop} {s t : σ}
    (h : Reach step cond s t) (hc : ∀ t a, cond t a → cond' t a) : Reach step cond' s t := by
  induction h with
  | refl => exact .refl
  | tail a _ hca he ih => exact ih.tail a (hc _ _ hca) he

/-- execute a list of actions -/
def run (step : σ → α → Option σ) : σ → List α → Option σ
  | s, [] => some s
  | s, a :: l => (step s a).bind fun t => run step t l

@[simp] theorem run_nil (step : σ → α → Option σ) (s : σ) : run step s [] = some s := rfl

theorem run_cons (step : σ → α → Option σ) (s : σ) (a : α) (l : List α) :
    run step s (a :: l) = (step s a).bind fun t => run step t l := rfl

/-- `step`, with the actions that do not meet `cond` made impossible -/
def guarded (step : σ → α → Option σ) (cond : σ → α → Prop) [∀ s a, Decidable (cond s a)] :
    σ → α → Option σ :=
  fun s a => if cond s a then step s a else none

theorem Reach.of_run {step : σ → α → Option σ} {cond : σ → α → Prop}
    [∀ s a, Decidable (cond s a)] (l : List α) :
    ∀ {s t : σ}, run (guarded step cond) s l = some t → Reach step cond s t := by
  induction l with
  | nil =>
    intro s t h
    cases h
    exact .refl
  | cons a l ih =>
    intro s t h
    rw [run_cons] at h
    obtain ⟨u, hu, ht⟩ := Option.bind_eq_some_iff.mp h
    unfold guarded at hu
    split at hu
    · next hc => exact (Reach.tail a .refl hc hu).trans (ih ht)
    · cases hu

end Machine
