import Mathlib.Logic.Relation
import Mathlib.Order.WellFounded

/-!
# Operations that fail for a while

* `Attempts`      attempts of one kind of operation: success `k` comes after `faults k` failures;
* `Steps`         the runs of a partial step function;
* `Steps.exists_done`   a run that ends, where each step makes something smaller.
-/

/-- how many attempts have been successful, and how many have failed since -/
structure Attempts where
  made : ℕ
  failed : ℕ

namespace Attempts
variable {faults : ℕ → ℕ} {a : Attempts}

def start : Attempts := ⟨0, 0⟩

/-- the next attempt fails -/
def Fails (faults : ℕ → ℕ) (a : Attempts) : Prop := a.failed < faults a.made

instance : Decidable (Fails faults a) := inferInstanceAs (Decidable (_ < _))

def fail (a : Attempts) : Attempts := ⟨a.made, a.failed + 1⟩

def succeed (a : Attempts) : Attempts := ⟨a.made + 1, 0⟩

/-- the failures that are to come before the next success -/
def left (faults : ℕ → ℕ) (a : Attempts) : ℕ := faults a.made - a.failed

theorem left_fail (h : a.Fails faults) : a.fail.left faults < a.left faults := by
  have h : a.failed < faults a.made := h
  show faults a.made - (a.failed + 1) < faults a.made - a.failed
  omega

end Attempts

/-- runs of `step` -/
def Steps {σ : Type*} (step : σ → Option σ) : σ → σ → Prop :=
  Relation.ReflTransGen fun s t => step s = some t

namespace Steps
variable {σ μ : Type*} {step : σ → Option σ} {s t : σ}

/-- what each step keeps -/
theorem inv {P : σ → Prop} (h : Steps step s t) (h₀ : P s)
    (hstep : ∀ s t, P s → step s = some t → P t) : P t := by
  induction h with
  | refl => exact h₀
  | tail _ ht ih => exact hstep _ _ ih ht

theorem head (h : step s = some t) {u : σ} (hu : Steps step t u) : Steps step s u :=
  Relation.ReflTransGen.head h hu

/-- each step goes on, and makes something smaller -/
theorem exists_done {r : μ → μ → Prop} (hr : WellFounded r) (size : σ → μ) (P Done : σ → Prop)
    (hstep : ∀ s, P s → ¬ Done s → ∃ t, step s = some t ∧ P t ∧ r (size t) (size s)) (h₀ : P s) :
    ∃ t, Steps step s t ∧ Done t ∧ P t := by
  suffices h : ∀ m s, size s = m → P s → ∃ t, Steps step s t ∧ Done t ∧ P t from h _ s rfl h₀
  intro m
  induction m using hr.induction with
  | _ m ih =>
    rintro s rfl hs
    by_cases hd : Done s
    · exact ⟨s, .refl, hd, hs⟩
    · obtain ⟨t, ht, hP, hlt⟩ := hstep s hs hd
      obtain ⟨u, hu, hdone, hPu⟩ := ih _ hlt t rfl hP
      exact ⟨u, head ht hu, hdone, hPu⟩

end Steps
