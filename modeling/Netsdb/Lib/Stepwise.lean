import Mathlib.Data.List.Induction
import Mathlib.Data.List.Infix

/-!
# When a run agrees with its replay

A partial step function `step : σ → α → Option σ` is compared with a total one, `spec : β → α → β`,
after every operation of a run.

* `Stepwise`       an allowed operation keeps the invariant; behind one that is not allowed the states do
                   not agree, or the operation is not possible;
* `Stepwise.iff`   a run agrees with its replay all along just if every operation is allowed.
-/

/-- the states of a run and of its replay -/
structure Stepwise {σ α β : Type*} (step : σ → α → Option σ) (spec : β → α → β)
    (inv agree : σ → β → Prop) (allowed : σ → α → Prop) (dom : α → Prop) : Prop where
  agrees : ∀ {s b}, inv s b → agree s b
  allows : ∀ {s b a}, dom a → inv s b → allowed s a → ∃ s', step s a = some s' ∧ inv s' (spec b a)
  not_allows : ∀ {s b a s'}, dom a → inv s b → ¬ allowed s a → step s a = some s' →
    ¬ agree s' (spec b a)

namespace Stepwise
variable {σ α β : Type*} {step : σ → α → Option σ} {spec : β → α → β} {inv agree : σ → β → Prop}
  {allowed : σ → α → Prop} {dom : α → Prop} {s₀ : σ} {b₀ : β} {ops : List α}

theorem foldlM_concat (step : σ → α → Option σ) (s : σ) (ops : List α) (a : α) :
    (ops ++ [a]).foldlM step s = (ops.foldlM step s).bind fun t => step t a := by
  rw [List.foldlM_append]
  show (ops.foldlM step s).bind _ = _
  congr 1
  funext t
  rw [List.foldlM_cons]
  show (step t a).bind _ = _
  exact Option.bind_fun_some _

/-- along a run of allowed operations -/
theorem inv_of_allowed (h : Stepwise step spec inv agree allowed dom) (h₀ : inv s₀ b₀)
    (hops : ∀ a ∈ ops, dom a)
    (ha : ∀ pre a, pre ++ [a] <+: ops → ∀ s, pre.foldlM step s₀ = some s →
      inv s (pre.foldl spec b₀) → allowed s a) (pre : List α) (hpre : pre <+: ops) :
    ∃ s, pre.foldlM step s₀ = some s ∧ inv s (pre.foldl spec b₀) := by
  induction pre using List.reverseRec with
  | nil => exact ⟨s₀, rfl, h₀⟩
  | append_singleton pre a ih =>
    obtain ⟨s, hrun, hs⟩ := ih ((List.prefix_append pre [a]).trans hpre)
    have hdom : dom a := hops a (hpre.subset (List.mem_append_right _ List.mem_cons_self))
    obtain ⟨s', hstep, hs'⟩ := h.allows hdom hs (ha pre a hpre s hrun hs)
    refine ⟨s', ?_, ?_⟩
    · rw [foldlM_concat, hrun]
      exact hstep
    · rw [List.foldl_append]
      exact hs'

/-- **A run agrees with its replay all along just if every operation is allowed.** -/
theorem iff (h : Stepwise step spec inv agree allowed dom) (h₀ : inv s₀ b₀)
    (hops : ∀ a ∈ ops, dom a) :
    (∀ pre, pre <+: ops → ∃ s, pre.foldlM step s₀ = some s ∧ agree s (pre.foldl spec b₀)) ↔
      ∀ pre a, pre ++ [a] <+: ops → ∀ s, pre.foldlM step s₀ = some s → allowed s a := by
  constructor
  · intro hall
    have hstep : ∀ pre a, pre ++ [a] <+: ops → ∀ s, pre.foldlM step s₀ = some s →
        inv s (pre.foldl spec b₀) → allowed s a := by
      intro pre a hpre s hrun hs
      by_contra hno
      obtain ⟨s', hrun', hagree⟩ := hall (pre ++ [a]) hpre
      have hdom : dom a := hops a (hpre.subset (List.mem_append_right _ List.mem_cons_self))
      rw [foldlM_concat, hrun] at hrun'
      rw [List.foldl_append] at hagree
      exact h.not_allows hdom hs hno hrun' hagree
    intro pre a hpre s hrun
    obtain ⟨s', hrun', hs⟩ := h.inv_of_allowed h₀ hops hstep pre
      ((List.prefix_append pre [a]).trans hpre)
    rw [hrun] at hrun'
    cases hrun'
    exact hstep pre a hpre s hrun hs
  · intro ha pre hpre
    obtain ⟨s, hrun, hs⟩ := h.inv_of_allowed h₀ hops (fun pre a hp s hrun _ => ha pre a hp s hrun)
      pre hpre
    exact ⟨s, hrun, h.agrees hs⟩

end Stepwise
