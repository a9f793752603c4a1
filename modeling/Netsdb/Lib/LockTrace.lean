import Mathlib.Data.List.Basic

/-!
# Programs that take locks and give them back

A program changes a state and leaves a trace of what it did with the locks; a mark in the trace says
that a branch was taken.  `none` where it does not come back.

* `hold h es`      the locks that are held after the trace, `none` where one is taken that is held, or
                   given back that is not held;
* `Leads P Q p`    `p` leaves a state with `Q` behind one with `P`;
* `Safe h h' p`    `p` takes no marked branch and goes from the locks `h` to `h'`;
* `Settles h₀ h h' p` the same, or it takes a marked branch and then breaks the rule or keeps a lock that
                   is not one of `h₀`; it gives back no lock that it has not taken, but for those of `h`;
* `Breaks l h h' p` after a marked branch `l` is given back already;
* `Below rank n h` all locks of `h` come before the `n`-th in an order of the locks;
* `balanced_iff`   so that the locks are as before exactly in the runs without a marked branch.
-/

set_option linter.unusedSectionVars false

namespace LockTrace
variable {L B S α β : Type} [DecidableEq L] {l : L} {h h₀ h₁ h₂ : List L}

inductive Event (L B : Type)
  | acquire (l : L)
  | release (l : L)
  | branch (b : B)
deriving DecidableEq

def hold : List L → List (Event L B) → Option (List L)
  | h, [] => some h
  | h, .acquire l :: es => if l ∈ h then none else hold (l :: h) es
  | h, .release l :: es => if l ∈ h then hold (h.erase l) es else none
  | h, .branch _ :: es => hold h es

theorem hold_append (h : List L) (x y : List (Event L B)) :
    hold h (x ++ y) = (hold h x).bind fun h' => hold h' y := by
  induction x generalizing h with
  | nil => rfl
  | cons e x ih =>
    cases e with
    | acquire l =>
      by_cases hl : l ∈ h
      · simp only [List.cons_append, hold, if_pos hl, Option.bind_none]
      · simp only [List.cons_append, hold, if_neg hl, ih]
    | release l =>
      by_cases hl : l ∈ h
      · simp only [List.cons_append, hold, if_pos hl, ih]
      · simp only [List.cons_append, hold, if_neg hl, Option.bind_none]
    | branch b => exact ih h

/-- no marked branch was taken -/
def Clean (es : List (Event L B)) : Prop := ∀ b, Event.branch b ∉ es

theorem clean_append {x y : List (Event L B)} : Clean (x ++ y) ↔ Clean x ∧ Clean y := by
  constructor
  · intro h
    exact ⟨fun b hb => h b (List.mem_append_left _ hb), fun b hb => h b (List.mem_append_right _ hb)⟩
  · rintro ⟨hx, hy⟩ b hb
    rcases List.mem_append.mp hb with hb | hb
    · exact hx b hb
    · exact hy b hb

/-- the first thing that is done with `l` is to take it -/
def OpensTrace (l : L) : List (Event L B) → Prop
  | [] => True
  | .acquire l' :: es => l' = l ∨ OpensTrace l es
  | .release l' :: es => l' ≠ l ∧ OpensTrace l es
  | .branch _ :: es => OpensTrace l es

theorem OpensTrace.append {x y : List (Event L B)} (hx : OpensTrace l x) (hy : OpensTrace l y) :
    OpensTrace l (x ++ y) := by
  induction x with
  | nil => exact hy
  | cons e x ih =>
    cases e with
    | acquire l' => exact hx.imp id ih
    | release l' => exact ⟨hx.1, ih hx.2⟩
    | branch b => exact ih hx

/-- a trace that obeys the rule takes a lock before it gives it back; what follows it may give back
what it has kept -/
theorem opens_append {x y : List (Event L B)} (hl : l ∉ h) (hx : hold h x = some h₁)
    (hy : l ∉ h₁ → OpensTrace l y) : OpensTrace l (x ++ y) := by
  induction x generalizing h with
  | nil =>
    obtain rfl := Option.some.inj hx
    exact hy hl
  | cons e x ih =>
    cases e with
    | acquire l' =>
      by_cases hll : l' = l
      · exact Or.inl hll
      · simp only [hold] at hx
        split at hx
        · cases hx
        · exact Or.inr (ih (fun hm => (List.mem_cons.mp hm).elim (fun he => hll he.symm) hl) hx)
    | release l' =>
      simp only [hold] at hx
      split at hx
      · next hm => exact ⟨fun hll => hl (hll ▸ hm), ih (fun hm => hl (List.mem_of_mem_erase hm)) hx⟩
      · cases hx
    | branch b => exact ih hl hx

/-- a lock that is held stays held, or the trace takes it once more -/
theorem OpensTrace.stays {es : List (Event L B)} (ho : OpensTrace l es) (hl : l ∈ h)
    (hr : hold h es = some h₁) : l ∈ h₁ := by
  induction es generalizing h with
  | nil =>
    obtain rfl := Option.some.inj hr
    exact hl
  | cons e es ih =>
    cases e with
    | acquire l' =>
      simp only [hold] at hr
      split at hr
      · cases hr
      · next hn =>
        have ho' := ho.resolve_left fun hll => hn (hll ▸ hl)
        exact ih ho' (List.mem_cons_of_mem _ hl) hr
    | release l' =>
      simp only [hold] at hr
      split at hr
      · exact ih ho.2 ((List.mem_erase_of_ne (Ne.symm ho.1)).mpr hl) hr
      · cases hr
    | branch b => exact ih ho hl hr

/-! ## An order of the locks -/

section
variable {rank : L → ℕ} {m n : ℕ}

def Below (rank : L → ℕ) (n : ℕ) (h : List L) : Prop := ∀ l ∈ h, rank l < n

theorem Below.nil : Below rank n [] := fun _ hl => absurd hl List.not_mem_nil

theorem Below.cons (hb : Below rank n h) (hl : rank l < n) : Below rank n (l :: h) := by
  intro l' hl'
  rcases List.mem_cons.mp hl' with rfl | hl'
  · exact hl
  · exact hb l' hl'

theorem Below.mono (hb : Below rank m h) (hn : m ≤ n) : Below rank n h :=
  fun l hl => Nat.lt_of_lt_of_le (hb l hl) hn

/-- the next lock in the order is not held -/
theorem Below.notMem (hb : Below rank (rank l) h) : l ∉ h := fun hl => Nat.lt_irrefl _ (hb l hl)

end

/-! ## Programs -/

def Prog (L B S α : Type) : Type := S → Option (α × S × List (Event L B))

namespace Prog

instance : Monad (Prog L B S) where
  pure a := fun s => some (a, s, [])
  bind p f := fun s =>
    match p s with
    | none => none
    | some (a, s', x) =>
      match f a s' with
      | none => none
      | some (b, s'', y) => some (b, s'', x ++ y)

def acquire (l : L) : Prog L B S Unit := fun s => some ((), s, [.acquire l])

def release (l : L) : Prog L B S Unit := fun s => some ((), s, [.release l])

def branch (b : B) : Prog L B S Unit := fun s => some ((), s, [.branch b])

/-- what is read of the state; `none`: the program does not come back -/
def read (g : S → Option α) : Prog L B S α := fun s => (g s).map fun a => (a, s, [])

def modify (f : S → S) : Prog L B S Unit := fun s => some ((), f s, [])

/-- the program does not come back -/
def stop : Prog L B S α := fun _ => none

variable {p : Prog L B S α} {f : α → Prog L B S β} {s s' : S} {a : α} {b : β}
  {es : List (Event L B)}

theorem pure_run {a' : α} (h : (pure a : Prog L B S α) s = some (a', s', es)) :
    a' = a ∧ s' = s ∧ es = [] := by
  obtain ⟨h1, h2⟩ := Prod.mk.inj (Option.some.inj h)
  obtain ⟨h2, h3⟩ := Prod.mk.inj h2
  exact ⟨h1.symm, h2.symm, h3.symm⟩

theorem read_run {g : S → Option α} (h : (read g : Prog L B S α) s = some (a, s', es)) :
    g s = some a ∧ s' = s ∧ es = [] := by
  obtain ⟨b, hb, he⟩ := Option.map_eq_some_iff.mp h
  obtain ⟨h1, he⟩ := Prod.mk.inj he
  obtain ⟨h2, h3⟩ := Prod.mk.inj he
  exact ⟨h1 ▸ hb, h2.symm, h3.symm⟩

/-- a run of two programs is a run of each -/
theorem bind_run (h : (p >>= f) s = some (b, s', es)) :
    ∃ a s₁ x y, p s = some (a, s₁, x) ∧ f a s₁ = some (b, s', y) ∧ es = x ++ y := by
  change (match p s with
    | none => none
    | some (a, s₁, x) =>
      match f a s₁ with
      | none => none
      | some (b, s', y) => some (b, s', x ++ y)) = some (b, s', es) at h
  cases hp : p s with
  | none =>
    rw [hp] at h
    cases h
  | some r =>
    obtain ⟨a, s₁, x⟩ := r
    rw [hp] at h
    simp only at h
    cases hf : f a s₁ with
    | none =>
      rw [hf] at h
      cases h
    | some r =>
      obtain ⟨b', s₂, y⟩ := r
      rw [hf] at h
      simp only [Option.some.injEq, Prod.mk.injEq] at h
      obtain ⟨rfl, rfl, rfl⟩ := h
      exact ⟨a, s₁, x, y, rfl, hf, rfl⟩

/-! ## What a program leaves of the state -/

def Leads (P Q : S → Prop) (p : Prog L B S α) : Prop :=
  ∀ s a s' es, p s = some (a, s', es) → P s → Q s'

section
variable {P Q R : S → Prop}

theorem Leads.bind (hp : Leads P Q p) (hf : ∀ a, Leads Q R (f a)) : Leads P R (p >>= f) := by
  intro s b s' es hr hP
  obtain ⟨a, s₁, x, y, hx, hy, -⟩ := bind_run hr
  exact hf a s₁ b s' y hy (hp s a s₁ x hx hP)

theorem Leads.trivial (p : Prog L B S α) : Leads P (fun _ => True) p := fun _ _ _ _ _ _ => True.intro

theorem Leads.release (l : L) : Leads P P (release l : Prog L B S Unit) := by
  intro s a s' es hr hP
  obtain ⟨-, hs, -⟩ := hr
  exact hP

theorem Leads.modify (g : S → S) (hg : ∀ s, P s → Q (g s)) :
    Leads P Q (modify g : Prog L B S Unit) := by
  intro s a s' es hr hP
  obtain ⟨-, hs, -⟩ := hr
  exact hg s hP

end

/-! ## Programs without marked branches -/

def Safe (h h' : List L) (p : Prog L B S α) : Prop :=
  ∀ s a s' es, p s = some (a, s', es) → hold h es = some h' ∧ Clean es

theorem Safe.pure (a : α) : Safe h h (pure a : Prog L B S α) := by
  intro s b s' es hr
  obtain ⟨-, -, rfl⟩ := pure_run hr
  exact ⟨rfl, fun b => List.not_mem_nil⟩

theorem Safe.bind (hp : Safe h h₁ p) (hf : ∀ a, Safe h₁ h₂ (f a)) : Safe h h₂ (p >>= f) := by
  intro s b s' es hr
  obtain ⟨a, s₁, x, y, hx, hy, rfl⟩ := bind_run hr
  obtain ⟨h1, h2⟩ := hp s a s₁ x hx
  obtain ⟨h3, h4⟩ := hf a s₁ b s' y hy
  refine ⟨?_, clean_append.mpr ⟨h2, h4⟩⟩
  rw [hold_append, h1]
  exact h3

theorem Safe.acquire (hl : l ∉ h) : Safe h (l :: h) (acquire l : Prog L B S Unit) := by
  intro s a s' es hr
  obtain ⟨-, -, rfl⟩ := hr
  refine ⟨if_neg hl, fun b hb => ?_⟩
  cases List.mem_singleton.mp hb

theorem Safe.release_of_mem (hl : l ∈ h) : Safe h (h.erase l) (release l : Prog L B S Unit) := by
  intro s a s' es hr
  obtain ⟨-, -, rfl⟩ := hr
  refine ⟨if_pos hl, fun b hb => ?_⟩
  cases List.mem_singleton.mp hb

theorem Safe.release : Safe (l :: h) h (release l : Prog L B S Unit) := by
  have hr := Safe.release_of_mem (B := B) (S := S) (List.mem_cons_self (a := l) (l := h))
  rwa [List.erase_cons_head] at hr

theorem Safe.read (g : S → Option α) : Safe h h (read g : Prog L B S α) := by
  intro s a s' es hr
  obtain ⟨-, -, rfl⟩ := read_run hr
  exact ⟨rfl, fun b => List.not_mem_nil⟩

theorem Safe.modify (g : S → S) : Safe h h (modify g : Prog L B S Unit) := by
  intro s a s' es hr
  obtain ⟨-, -, rfl⟩ := hr
  exact ⟨rfl, fun b => List.not_mem_nil⟩

theorem Safe.stop : Safe h h₁ (stop : Prog L B S α) := by
  intro s a s' es hr
  cases hr

/-! ## Programs with marked branches -/

/-- a branch was taken that breaks the rule or keeps a lock -/
def Lost (h₀ h : List L) (es : List (Event L B)) : Prop :=
  ¬ Clean es ∧ ∀ h', hold h es = some h' → ∃ l ∈ h', l ∉ h₀

def Settles (h₀ h h' : List L) (p : Prog L B S α) : Prop :=
  ∀ s a s' es, p s = some (a, s', es) →
    (∀ l, l ∉ h → OpensTrace l es) ∧ ((hold h es = some h' ∧ Clean es) ∨ Lost h₀ h es)

theorem Safe.settles (hp : Safe h h₁ p) : Settles h₀ h h₁ p := by
  intro s a s' es hr
  obtain ⟨h1, h2⟩ := hp s a s' es hr
  refine ⟨fun l hl => ?_, Or.inl ⟨h1, h2⟩⟩
  have ho := opens_append (y := []) hl h1 fun _ => trivial
  rwa [List.append_nil] at ho

theorem Settles.of_safe (hp : Safe h h₁ p) (hf : ∀ a, Settles h₀ h₁ h₂ (f a)) : Settles h₀ h h₂ (p >>= f) := by
  intro s b s' es hr
  obtain ⟨a, s₁, x, y, hx, hy, rfl⟩ := bind_run hr
  obtain ⟨h1, h2⟩ := hp s a s₁ x hx
  obtain ⟨ho, hy⟩ := hf a s₁ b s' y hy
  have heq : hold h (x ++ y) = hold h₁ y := by
    rw [hold_append, h1]
    rfl
  refine ⟨fun l hl => opens_append hl h1 (ho l), ?_⟩
  rcases hy with ⟨h3, h4⟩ | ⟨h3, h4⟩
  · exact Or.inl ⟨heq.trans h3, clean_append.mpr ⟨h2, h4⟩⟩
  · exact Or.inr ⟨fun hc => h3 (clean_append.mp hc).2, fun h' hh => h4 h' (heq.symm.trans hh)⟩

/-- the second program does not give back what the first has kept -/
theorem Settles.bind (hp : Settles h h h p) (hf : ∀ a, Settles h₀ h h₂ (f a)) (h0 : ∀ l ∈ h₀, l ∈ h) :
    Settles h₀ h h₂ (p >>= f) := by
  intro s b s' es hr
  obtain ⟨a, s₁, x, y, hx, hy, rfl⟩ := bind_run hr
  obtain ⟨hox, hx⟩ := hp s a s₁ x hx
  obtain ⟨hoy, hy⟩ := hf a s₁ b s' y hy
  refine ⟨fun l hl => (hox l hl).append (hoy l hl), ?_⟩
  rcases hx with ⟨h1, h2⟩ | ⟨h1, h2⟩
  · have heq : hold h (x ++ y) = hold h y := by
      rw [hold_append, h1]
      rfl
    rcases hy with ⟨h3, h4⟩ | ⟨h3, h4⟩
    · exact Or.inl ⟨heq.trans h3, clean_append.mpr ⟨h2, h4⟩⟩
    · exact Or.inr ⟨fun hc => h3 (clean_append.mp hc).2, fun h' hh => h4 h' (heq.symm.trans hh)⟩
  · refine Or.inr ⟨fun hc => h1 (clean_append.mp hc).1, fun h' hh => ?_⟩
    rw [hold_append] at hh
    obtain ⟨h'', h3, h4⟩ := Option.bind_eq_some_iff.mp hh
    obtain ⟨l, hl, hlh⟩ := h2 h'' h3
    exact ⟨l, (hoy l hlh).stays hl h4, fun hl0 => hlh (h0 l hl0)⟩

/-- a marked branch that keeps the lock `l` -/
theorem Settles.branch {b : B} {f : Unit → Prog L B S β} (hf : Safe h h₁ (f ())) (hl : l ∈ h₁)
    (h0 : l ∉ h₀) : Settles h₀ h h₂ (branch b >>= f) := by
  intro s c s' es hr
  obtain ⟨a, s₁, x, y, hx, hy, rfl⟩ := bind_run hr
  obtain ⟨-, hs, rfl⟩ := hx
  obtain ⟨h1, -⟩ := hf _ c s' y hy
  refine ⟨fun l' hl' => ?_, Or.inr ⟨fun hc => hc b List.mem_cons_self, fun h' hh => ?_⟩⟩
  · have ho := opens_append (y := []) hl' h1 fun _ => trivial
    rwa [List.append_nil] at ho
  · obtain rfl := Option.some.inj (h1.symm.trans hh)
    exact ⟨l, hl, h0⟩

/-- `p` ends with `l` held, or after a marked branch without it -/
def Breaks (l : L) (h h' : List L) (p : Prog L B S α) : Prop :=
  ∀ s a s' es, p s = some (a, s', es) →
    (hold h' es = some (l :: h) ∧ Clean es) ∨ (hold h' es = some h ∧ ¬ Clean es)

theorem Safe.breaks (hp : Safe h₁ (l :: h) p) : Breaks l h h₁ p :=
  fun s a s' es hr => Or.inl (hp s a s' es hr)

theorem Breaks.of_safe (hp : Safe h₁ h₂ p) (hf : ∀ a, Breaks l h h₂ (f a)) :
    Breaks l h h₁ (p >>= f) := by
  intro s b s' es hr
  obtain ⟨a, s₁, x, y, hx, hy, rfl⟩ := bind_run hr
  obtain ⟨h1, h2⟩ := hp s a s₁ x hx
  have heq : hold h₁ (x ++ y) = hold h₂ y := by
    rw [hold_append, h1]
    rfl
  rcases hf a s₁ b s' y hy with ⟨h3, h4⟩ | ⟨h3, h4⟩
  · exact Or.inl ⟨heq.trans h3, clean_append.mpr ⟨h2, h4⟩⟩
  · exact Or.inr ⟨heq.trans h3, fun hc => h4 (clean_append.mp hc).2⟩

theorem Breaks.branch (b : B) : Breaks l h h (branch b : Prog L B S Unit) := by
  intro s a s' es hr
  obtain ⟨-, -, rfl⟩ := hr
  exact Or.inr ⟨rfl, fun hc => hc b List.mem_cons_self⟩

/-- then `l` is given back once more -/
theorem Breaks.release (hp : Breaks l h h₁ p) (hl : l ∉ h) (hl₁ : l ∈ h₁) :
    Settles h₀ h₁ h (p >>= fun _ => release l) := by
  intro s b s' es hr
  obtain ⟨a, s₁, x, y, hx, hy, rfl⟩ := bind_run hr
  obtain ⟨-, -, rfl⟩ := hy
  have ho : ∀ l', l' ∉ h₁ → OpensTrace l' [(Event.release l : Event L B)] := by
    intro l' hl'
    exact ⟨fun he => hl' (he ▸ hl₁), trivial⟩
  rcases hp s a _ x hx with ⟨h1, h2⟩ | ⟨h1, h2⟩
  · refine ⟨fun l' hl' => opens_append hl' h1 fun _ => ho l' hl', Or.inl ⟨?_, ?_⟩⟩
    · rw [hold_append, h1]
      show (if l ∈ l :: h then some ((l :: h).erase l) else none) = some h
      rw [if_pos List.mem_cons_self, List.erase_cons_head]
    · refine clean_append.mpr ⟨h2, fun b hb => ?_⟩
      cases List.mem_singleton.mp hb
  · refine ⟨fun l' hl' => opens_append hl' h1 fun _ => ho l' hl', Or.inr ⟨?_, fun h' hh => ?_⟩⟩
    · exact fun hc => h2 (clean_append.mp hc).1
    · rw [hold_append, h1] at hh
      simp only [Option.bind_some, hold, if_neg hl] at hh
      cases hh

/-- in a run the locks are as before exactly if no marked branch was taken -/
theorem Settles.balanced_iff (hp : Settles h h h p) (hr : p s = some (a, s', es)) :
    hold h es = some h ↔ Clean es := by
  rcases (hp s a s' es hr).2 with ⟨h1, h2⟩ | ⟨h1, h2⟩
  · exact iff_of_true h1 h2
  · refine iff_of_false (fun hh => ?_) h1
    obtain ⟨l, hl, hl0⟩ := h2 h hh
    exact hl0 hl

end Prog
end LockTrace
