import Mathlib.Algebra.BigOperators.Group.List.Basic
import Mathlib.Data.List.Perm.Basic
import Mathlib.Data.List.Dedup
import Mathlib.Tactic.Choose

/-!
# Aggregation

The inputs of a key are turned into values, and these are added up two at a time, in any order.

* `Merged`       a result of some inputs;
* `Merged.keeps`, `Merged.sum_eq`   what `plus` keeps, and what it adds up;
* `Merged.congr`   additions that agree on the values that there are;
* `Aggregates`   one result for each key;
* `exists_aggregates`   there is one.
-/

namespace Aggregation
variable {α β κ : Type*} [DecidableEq κ] {value : α → β} {plus : β → β → β} {key : α → κ}

/-- a value of the inputs, added up in some order -/
inductive Merged (value : α → β) (plus : β → β → β) : List α → β → Prop
  | one (a : α) : Merged value plus [a] (value a)
  | add {l l' : List α} {b b' : β} :
    Merged value plus l b → Merged value plus l' b' → Merged value plus (l ++ l') (plus b b')
  | perm {l l' : List α} {b : β} : Merged value plus l b → l.Perm l' → Merged value plus l' b

/-- each key of an input has one result -/
structure Aggregates (key : α → κ) (value : α → β) (plus : β → β → β) (inputs : List α)
    (outputs : List (κ × β)) : Prop where
  keyed : (outputs.map Prod.fst).Nodup
  keys : ∀ k, k ∈ outputs.map Prod.fst ↔ ∃ a ∈ inputs, key a = k
  merged : ∀ e ∈ outputs, Merged value plus (inputs.filter fun a => key a = e.1) e.2

theorem Merged.keeps {P : β → Prop} {l : List α} {b : β} (h : Merged value plus l b)
    (hone : ∀ a ∈ l, P (value a)) (hplus : ∀ b b', P b → P b' → P (plus b b')) : P b := by
  induction h with
  | one a => exact hone a (List.mem_singleton.mpr rfl)
  | add _ _ ih ih' =>
    exact hplus _ _ (ih fun a ha => hone a (List.mem_append_left _ ha))
      (ih' fun a ha => hone a (List.mem_append_right _ ha))
  | perm _ hperm ih => exact ih fun a ha => hone a (hperm.mem_iff.mp ha)

/-- a measure of the values that keep `P`, where `plus` adds it up -/
theorem Merged.sum_eq {M : Type*} [AddCommMonoid M] {P : β → Prop} {l : List α} {b : β}
    (h : Merged value plus l b) (hone : ∀ a ∈ l, P (value a))
    (hplus : ∀ b b', P b → P b' → P (plus b b')) (φ : β → M)
    (hφ : ∀ b b', P b → P b' → φ (plus b b') = φ b + φ b') : φ b = (l.map fun a => φ (value a)).sum := by
  induction h with
  | one a => exact List.sum_singleton.symm
  | add h h' ih ih' =>
    have hl := fun a ha => hone a (List.mem_append_left _ ha)
    have hl' := fun a ha => hone a (List.mem_append_right _ ha)
    rw [hφ _ _ (h.keeps hl hplus) (h'.keeps hl' hplus), ih hl, ih' hl', List.map_append, List.sum_append]
  | perm _ hperm ih =>
    rw [ih fun a ha => hone a (hperm.mem_iff.mp ha), (hperm.map _).sum_eq]

/-- an addition that is the same for values that keep `P` -/
theorem Merged.congr {P : β → Prop} {plus' : β → β → β} {l : List α} {b : β}
    (h : Merged value plus l b) (hone : ∀ a ∈ l, P (value a))
    (hplus : ∀ b b', P b → P b' → P (plus b b')) (heq : ∀ b b', P b → P b' → plus b b' = plus' b b') :
    Merged value plus' l b := by
  induction h with
  | one a => exact .one a
  | add h h' ih ih' =>
    have hl := fun a ha => hone a (List.mem_append_left _ ha)
    have hl' := fun a ha => hone a (List.mem_append_right _ ha)
    rw [heq _ _ (h.keeps hl hplus) (h'.keeps hl' hplus)]
    exact (ih hl).add (ih' hl')
  | perm _ hperm ih => exact (ih fun a ha => hone a (hperm.mem_iff.mp ha)).perm hperm

theorem Merged.ne_nil {l : List α} {b : β} (h : Merged value plus l b) : l ≠ [] := by
  induction h with
  | one a => exact List.cons_ne_nil a []
  | add _ _ ih _ => exact fun he => ih (List.append_eq_nil_iff.mp he).1
  | perm _ hperm ih => exact fun he => ih (hperm.trans (he ▸ List.Perm.refl _)).eq_nil

/-- nothing is added to a single input -/
theorem Merged.eq_of_singleton {l : List α} {a : α} {b : β} (h : Merged value plus l b) (hl : l = [a]) :
    b = value a := by
  induction h with
  | one a' => rw [(List.cons.inj hl).1]
  | add h h' _ _ =>
    rcases List.append_eq_singleton_iff.mp hl with ⟨hl, -⟩ | ⟨-, hl⟩
    · exact absurd hl h.ne_nil
    · exact absurd hl h'.ne_nil
  | perm _ hperm ih => exact ih (List.perm_singleton.mp (hl ▸ hperm))

/-- the inputs of one key, where the keys differ -/
theorem filter_key {l : List α} (hkeys : (l.map key).Nodup) {a : α} (ha : a ∈ l) :
    (l.filter fun x => key x = key a) = [a] := by
  induction l with
  | nil => exact (List.not_mem_nil ha).elim
  | cons x l ih =>
    obtain ⟨hx, hl⟩ := List.nodup_cons.mp hkeys
    rcases List.mem_cons.mp ha with rfl | ha
    · have hpos : decide (key a = key a) = true := decide_eq_true rfl
      rw [List.filter_cons, if_pos hpos, List.filter_eq_nil_iff.mpr]
      intro y hy he
      exact hx (of_decide_eq_true he ▸ List.mem_map_of_mem hy)
    · rw [List.filter_cons, if_neg, ih hl ha]
      intro he
      exact hx (of_decide_eq_true he ▸ List.mem_map_of_mem ha)

theorem exists_merged {l : List α} (h : l ≠ []) : ∃ b, Merged value plus l b := by
  induction l with
  | nil => exact absurd rfl h
  | cons a l ih =>
    cases l with
    | nil => exact ⟨_, .one a⟩
    | cons a' l =>
      obtain ⟨b, hb⟩ := ih (List.cons_ne_nil _ _)
      exact ⟨_, (Merged.one a).add hb⟩

theorem exists_aggregates (key : α → κ) (value : α → β) (plus : β → β → β) (inputs : List α) :
    ∃ outputs, Aggregates key value plus inputs outputs := by
  rcases inputs with - | ⟨a₀, rest⟩
  · exact ⟨[], List.nodup_nil, fun k => iff_of_false List.not_mem_nil fun ⟨a, ha, _⟩ => (nomatch ha),
      fun e he => nomatch he⟩
  generalize a₀ :: rest = inputs
  have : Nonempty β := ⟨value a₀⟩
  have hgroup : ∀ k ∈ (inputs.map key).dedup, ∃ b,
      Merged value plus (inputs.filter fun a => key a = k) b := by
    intro k hk
    obtain ⟨a, ha, hka⟩ := List.mem_map.mp (List.mem_dedup.mp hk)
    exact exists_merged (List.ne_nil_of_mem (List.mem_filter.mpr ⟨ha, decide_eq_true hka⟩))
  choose! f hf using hgroup
  refine ⟨(inputs.map key).dedup.map fun k => (k, f k), ?_, fun k => ?_, fun e he => ?_⟩
  · rw [List.map_map]
    show ((inputs.map key).dedup.map id).Nodup
    rw [List.map_id]
    exact List.nodup_dedup _
  · rw [List.map_map]
    show k ∈ (inputs.map key).dedup.map id ↔ _
    rw [List.map_id, List.mem_dedup, List.mem_map]
  · obtain ⟨k, hk, rfl⟩ := List.mem_map.mp he
    exact hf k hk

namespace Aggregates
variable {inputs : List α} {outputs : List (κ × β)}

theorem congr {P : β → Prop} {plus' : β → β → β} (h : Aggregates key value plus inputs outputs)
    (hone : ∀ a ∈ inputs, P (value a)) (hplus : ∀ b b', P b → P b' → P (plus b b'))
    (heq : ∀ b b', P b → P b' → plus b b' = plus' b b') :
    Aggregates key value plus' inputs outputs where
  keyed := h.keyed
  keys := h.keys
  merged e he := (h.merged e he).congr (fun a ha => hone a (List.mem_filter.mp ha).1) hplus heq

/-- the result of the key of an input -/
theorem exists_output (h : Aggregates key value plus inputs outputs) {a : α} (ha : a ∈ inputs) :
    ∃ b, (key a, b) ∈ outputs := by
  obtain ⟨⟨k, b⟩, he, hk⟩ := List.mem_map.mp ((h.keys (key a)).mpr ⟨a, ha, rfl⟩)
  cases hk
  exact ⟨b, he⟩

theorem eq_nil (h : Aggregates key value plus [] outputs) : outputs = [] := by
  refine List.eq_nil_iff_forall_not_mem.mpr fun e he => ?_
  obtain ⟨a, ha, -⟩ := (h.keys e.1).mp (List.mem_map.mpr ⟨e, he, rfl⟩)
  cases ha

end Aggregates
end Aggregation
