import Mathlib.Data.List.Basic

/-!
# Iterators that are called to the end

`next s` gives an item and the state behind it, or `none` for the item at the end; `none` for both: the
call does not return.

* `Drains`       the items of the calls up to the end, and the state behind the last call;
* `Drains.det`   there is one such list;
* `Drains.run`   an invariant of the items so far and the state, and a measure, give it.
-/

variable {σ β : Type*} {next : σ → Option (σ × Option β)} {s s' s'' : σ} {b : β} {bs bs' : List β}

inductive Drains (next : σ → Option (σ × Option β)) : σ → List β → σ → Prop
  | stop {s s' : σ} : next s = some (s', none) → Drains next s [] s'
  | more {s s' s'' : σ} {b : β} {bs : List β} : next s = some (s', some b) → Drains next s' bs s'' →
      Drains next s (b :: bs) s''

namespace Drains

theorem det (h : Drains next s bs s') : ∀ {bs' : List β} {s'' : σ}, Drains next s bs' s'' →
    bs = bs' ∧ s' = s'' := by
  induction h with
  | stop hn =>
    intro bs' s'' h'
    cases h' with
    | stop hn' =>
      rw [hn] at hn'
      cases hn'
      exact ⟨rfl, rfl⟩
    | more hn' _ =>
      rw [hn] at hn'
      cases hn'
  | more hn _ ih =>
    intro bs' s'' h'
    cases h' with
    | stop hn' =>
      rw [hn] at hn'
      cases hn'
    | more hn' htail =>
      rw [hn] at hn'
      cases hn'
      obtain ⟨rfl, rfl⟩ := ih htail
      exact ⟨rfl, rfl⟩

/-- an iterator that is never at the end -/
theorem never {P : σ → Prop} (hstep : ∀ s, P s → ∃ s' b, next s = some (s', some b) ∧ P s')
    (h : Drains next s bs s') : ¬ P s := by
  induction h with
  | stop hn =>
    intro hp
    obtain ⟨t, b, ht, -⟩ := hstep _ hp
    rw [hn] at ht
    cases ht
  | more hn _ ih =>
    intro hp
    obtain ⟨t, b, ht, hp'⟩ := hstep _ hp
    rw [hn] at ht
    cases ht
    exact ih hp'

/-- `P` holds of the items so far and the state, `Q` at the end -/
theorem run {P Q : List β → σ → Prop} (f : σ → Nat)
    (hstep : ∀ bs s, P bs s → (∃ s', next s = some (s', none) ∧ Q bs s') ∨
      ∃ s' b, next s = some (s', some b) ∧ P (bs ++ [b]) s' ∧ f s' < f s)
    (h : P [] s) : ∃ bs s', Drains next s bs s' ∧ Q bs s' := by
  suffices hgen : ∀ n bs s, f s = n → P bs s →
      ∃ bs' s', Drains next s bs' s' ∧ Q (bs ++ bs') s' from hgen (f s) [] s rfl h
  intro n
  induction n using Nat.strongRecOn with
  | ind n ih =>
    intro bs s hn hp
    obtain ⟨s', hs', hq⟩ | ⟨s', b, hs', hp', hlt⟩ := hstep bs s hp
    · refine ⟨[], s', .stop hs', ?_⟩
      rw [List.append_nil]
      exact hq
    · obtain ⟨bs', s'', hdrain, hq⟩ := ih (f s') (hn ▸ hlt) (bs ++ [b]) s' rfl hp'
      refine ⟨b :: bs', s'', .more hs' hdrain, ?_⟩
      rw [List.append_assoc] at hq
      exact hq

end Drains
