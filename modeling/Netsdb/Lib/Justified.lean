import Mathlib.Data.List.Induction

/-!
# Lists that are justified in order

A list is justified by a relation `R` when every element stands in `R` to the elements before it.

* `Justified.snoc`      a list grows at its end;
* `Justified.pairwise`  what `R` says about every earlier element holds of all pairs.
-/

variable {α : Type*}

def Justified (R : List α → α → Prop) (l : List α) : Prop :=
  ∀ pre a post, l = pre ++ a :: post → R pre a

namespace Justified
variable {R : List α → α → Prop} {l : List α}

theorem nil : Justified R [] := by
  intro pre a post h
  cases pre with
  | nil => cases h
  | cons b pre => cases h

theorem snoc (h : Justified R l) {a : α} (ha : R l a) : Justified R (l ++ [a]) := by
  intro pre b post he
  rcases List.eq_nil_or_concat post with rfl | ⟨post, c, rfl⟩
  · obtain ⟨rfl, hb⟩ := List.append_inj' he rfl
    obtain rfl := (List.cons.inj hb).1
    exact ha
  · rw [List.concat_eq_append, ← List.cons_append, ← List.append_assoc] at he
    exact h pre b post (List.append_inj' he rfl).1

theorem pairwise {S : α → α → Prop} (h : Justified R l)
    (hS : ∀ pre a, R pre a → ∀ b ∈ pre, S b a) : l.Pairwise S := by
  induction l using List.reverseRecOn with
  | nil => exact List.Pairwise.nil
  | append_singleton l a ih =>
    refine List.pairwise_append.mpr ⟨ih fun pre b post he => ?_, List.pairwise_singleton _ _, ?_⟩
    · exact h pre b (post ++ [a]) (by rw [he, List.append_assoc, List.cons_append])
    · intro b hb c hc
      obtain rfl := List.mem_singleton.mp hc
      exact hS l c (h l c [] rfl) b hb

end Justified
