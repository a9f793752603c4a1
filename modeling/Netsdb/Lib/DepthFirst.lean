import Mathlib.Data.List.Basic

/-!
# The first path that a depth-first search finds

A graph is given by the list of the next nodes of each node, in which they are tried.

* `search`        goes down until a node is a goal, and goes back where there is none;
* `IsPath`        a path from one of some nodes to a goal;
* `FirstPath`     the path that takes, at each node, the first next one from which a goal can be reached;
* `search_first`  it is the path that is found, if every edge leads to a higher rank.
-/

namespace DepthFirst
variable {α : Type*}

inductive Outcome (α : Type*) where
  | found (path : List α)
  | notFound
  /-- the fuel is out -/
  | running

/-- the first of the nodes that has a path -/
def firstOf (f : α → Outcome α) : List α → Outcome α
  | [] => .notFound
  | a :: as =>
    match f a with
    | .found p => .found p
    | .notFound => firstOf f as
    | .running => .running

def search (next : α → List α) (goal : α → Bool) : ℕ → α → Outcome α
  | 0, _ => .running
  | fuel + 1, a =>
    if goal a then .found [a]
    else
      match firstOf (search next goal fuel) (next a) with
      | .found p => .found (a :: p)
      | .notFound => .notFound
      | .running => .running

variable {next : α → List α} {goal : α → Bool} {a b c : α} {cs p : List α} {fuel n : ℕ} {rank : α → ℕ}

variable (next goal) in
inductive Reaches : α → Prop where
  | here {a : α} (h : goal a = true) : Reaches a
  | step {a c : α} (hc : c ∈ next a) (h : Reaches c) : Reaches a

variable (next goal) in
inductive IsPath : List α → List α → Prop where
  | here {cs : List α} {a : α} (ha : a ∈ cs) (h : goal a = true) : IsPath cs [a]
  | step {cs p : List α} {a : α} (ha : a ∈ cs) (h : IsPath (next a) p) : IsPath cs (a :: p)

variable (next goal) in
inductive FirstPath : List α → List α → Prop where
  | here {before after : List α} {a : α} (hbefore : ∀ b ∈ before, ¬ Reaches next goal b) (h : goal a = true) :
      FirstPath (before ++ a :: after) [a]
  | step {before after p : List α} {a : α} (hbefore : ∀ b ∈ before, ¬ Reaches next goal b) (hgoal : goal a = false)
      (h : FirstPath (next a) p) : FirstPath (before ++ a :: after) (a :: p)

theorem Reaches.exists_path (h : Reaches next goal a) (ha : a ∈ cs) : ∃ p, IsPath next goal cs (a :: p) := by
  induction h generalizing cs with
  | here h => exact ⟨[], .here ha h⟩
  | step hc _ ih =>
    obtain ⟨p, hp⟩ := ih hc
    exact ⟨_, .step ha hp⟩

theorem IsPath.ne_nil (h : IsPath next goal cs p) : p ≠ [] := by
  cases h with
  | here => exact List.cons_ne_nil _ _
  | step => exact List.cons_ne_nil _ _

/-- **The only path is the first one.** -/
theorem IsPath.first (h : IsPath next goal cs p) (honly : ∀ q, IsPath next goal cs q → q = p) :
    FirstPath next goal cs p := by
  induction h with
  | @here cs a ha h =>
    obtain ⟨before, after, rfl, hno⟩ := List.eq_append_cons_of_mem ha
    refine .here (fun b hb hr => ?_) h
    obtain ⟨q, hq⟩ := hr.exists_path (List.mem_append_left _ hb)
    exact hno ((List.cons.inj (honly _ hq)).1 ▸ hb)
  | @step cs p a ha h ih =>
    have hmem := ha
    obtain ⟨before, after, rfl, hno⟩ := List.eq_append_cons_of_mem ha
    refine .step (fun b hb hr => ?_) ?_ (ih fun q hq => (List.cons.inj (honly _ (.step hmem hq))).2)
    · obtain ⟨q, hq⟩ := hr.exists_path (List.mem_append_left _ hb)
      exact hno ((List.cons.inj (honly _ hq)).1 ▸ hb)
    · by_contra hgoal
      have hshort := honly _ (.here hmem (Bool.not_eq_false _ ▸ hgoal))
      exact h.ne_nil (List.cons.inj hshort).2.symm

theorem firstOf_notFound {f : α → Outcome α} (h : ∀ c ∈ cs, f c = .notFound) : firstOf f cs = .notFound := by
  induction cs with
  | nil => rfl
  | cons c cs ih =>
    rw [firstOf, h c List.mem_cons_self]
    exact ih fun d hd => h d (List.mem_cons_of_mem c hd)

theorem firstOf_found {f : α → Outcome α} {before after : List α} (hb : ∀ b ∈ before, f b = .notFound)
    (ha : f a = .found p) : firstOf f (before ++ a :: after) = .found p := by
  induction before with
  | nil =>
    rw [List.nil_append, firstOf, ha]
  | cons b before ih =>
    rw [List.cons_append, firstOf, hb b List.mem_cons_self]
    exact ih fun d hd => hb d (List.mem_cons_of_mem b hd)

/-- a search that cannot succeed comes to an end -/
theorem search_notFound (hrank : ∀ a, ∀ c ∈ next a, rank a < rank c) (hn : ∀ a, rank a ≤ n)
    (hfuel : n < fuel + rank a) (ha : ¬ Reaches next goal a) : search next goal fuel a = .notFound := by
  induction fuel generalizing a with
  | zero =>
    have := hn a
    omega
  | succ fuel ih =>
    rw [search, if_neg fun h => ha (.here h), firstOf_notFound]
    intro c hc
    have := hrank a c hc
    exact ih (by omega) fun h => ha (.step hc h)

/-- **What the search finds.** -/
theorem search_first (hrank : ∀ a, ∀ c ∈ next a, rank a < rank c) (hn : ∀ a, rank a ≤ n)
    (h : FirstPath next goal cs p) (hfuel : ∀ c ∈ cs, n < fuel + rank c) :
    firstOf (search next goal fuel) cs = .found p := by
  induction h generalizing fuel with
  | @here before after a hbefore h =>
    refine firstOf_found (fun b hb => search_notFound hrank hn (hfuel b ?_) (hbefore b hb)) ?_
    · exact List.mem_append_left _ hb
    · have hlt := hfuel a (List.mem_append_right _ List.mem_cons_self)
      have := hn a
      obtain ⟨k, rfl⟩ : ∃ k, fuel = k + 1 := ⟨fuel - 1, by omega⟩
      rw [search, if_pos h]
  | @step before after p a hbefore hgoal h ih =>
    refine firstOf_found (fun b hb => search_notFound hrank hn (hfuel b ?_) (hbefore b hb)) ?_
    · exact List.mem_append_left _ hb
    · have hlt := hfuel a (List.mem_append_right _ List.mem_cons_self)
      have := hn a
      obtain ⟨k, rfl⟩ : ∃ k, fuel = k + 1 := ⟨fuel - 1, by omega⟩
      have hnext : firstOf (search next goal k) (next a) = .found p := by
        refine ih fun c hc => ?_
        have := hrank a c hc
        omega
      rw [search, if_neg (by rw [hgoal]; exact Bool.false_ne_true), hnext]

end DepthFirst
