import Mathlib.Data.List.Basic
import Mathlib.Data.List.Nodup

/-!
# Decision trees, and arrays that hold one

A node has a question with two answers, a leaf has a value.

* `QTree.eval`     the value of the leaf that the answers lead to, `asked` the questions on the way;
* `Graph.walk`    from node to node, as far as the fuel goes;
* `Graph.Holds`   what is reached from a node is a tree;
* `walk_holds`    a walk ends at the leaf of the tree;
* `walk_eq_iff`   where no node is reached twice, two walks end at one leaf if and only if they get
                  the same answers.
-/

namespace Decision
variable {κ τ α : Type*}

inductive QTree (τ α : Type*)
  | leaf (value : α)
  | node (question : τ) (yes no : QTree τ α)

namespace QTree

def eval (answer : τ → Bool) : QTree τ α → α
  | leaf v => v
  | node q yes no => if answer q then yes.eval answer else no.eval answer

/-- the questions on the way -/
def asked (answer : τ → Bool) : QTree τ α → List τ
  | leaf _ => []
  | node q yes no => q :: if answer q then yes.asked answer else no.asked answer

def questions : QTree τ α → List τ
  | leaf _ => []
  | node q yes no => q :: (yes.questions ++ no.questions)

def height : QTree τ α → ℕ
  | leaf _ => 0
  | node _ yes no => max yes.height no.height + 1

theorem asked_subset (answer : τ → Bool) (t : QTree τ α) : t.asked answer ⊆ t.questions := by
  induction t with
  | leaf v => exact List.Subset.refl _
  | node q yes no ihy ihn =>
    refine List.cons_subset_cons q ?_
    split
    · exact List.Subset.trans ihy (List.subset_append_left _ _)
    · exact List.Subset.trans ihn (List.subset_append_right _ _)

theorem eval_congr {answer answer' : τ → Bool} {t : QTree τ α}
    (h : ∀ q ∈ t.asked answer, answer' q = answer q) : t.eval answer' = t.eval answer := by
  induction t with
  | leaf v => rfl
  | node q yes no ihy ihn =>
    have hq := h q List.mem_cons_self
    have hrest := fun x hx => h x (List.mem_cons_of_mem q hx)
    rw [eval, eval, hq]
    cases hb : answer q with
    | true =>
      rw [hb] at hrest
      exact ihy hrest
    | false =>
      rw [hb] at hrest
      exact ihn hrest

/-! other questions in the same places -/

def relabel {τ' : Type*} (f : τ → τ') : QTree τ α → QTree τ' α
  | leaf v => leaf v
  | node q yes no => node (f q) (yes.relabel f) (no.relabel f)

theorem eval_relabel {τ' : Type*} (f : τ → τ') (answer : τ' → Bool) (t : QTree τ α) :
    (t.relabel f).eval answer = t.eval (answer ∘ f) := by
  induction t with
  | leaf v => rfl
  | node q yes no ihy ihn => rw [relabel, eval, eval, ihy, ihn, Function.comp_apply]

theorem height_relabel {τ' : Type*} (f : τ → τ') (t : QTree τ α) : (t.relabel f).height = t.height := by
  induction t with
  | leaf v => rfl
  | node q yes no ihy ihn => rw [relabel, height, height, ihy, ihn]

theorem questions_relabel {τ' : Type*} (f : τ → τ') (t : QTree τ α) :
    (t.relabel f).questions = t.questions.map f := by
  induction t with
  | leaf v => rfl
  | node q yes no ihy ihn =>
    rw [relabel, questions, questions, ihy, ihn, List.map_cons, List.map_append]

end QTree

/-- nodes, each with a value or a question, and the nodes that the answers lead to -/
structure Graph (κ τ α : Type*) where
  label : κ → α ⊕ τ
  next : κ → Bool → Option κ

namespace Graph
variable {g : Graph κ τ α} {ask ask' : τ → Option Bool} {answer answer' : τ → Bool}
  {t : QTree τ α} {k : κ} {n : ℕ}

def walk (g : Graph κ τ α) (ask : τ → Option Bool) : ℕ → κ → Option κ
  | 0, _ => none
  | n + 1, k =>
    match g.label k with
    | .inl _ => some k
    | .inr q => (ask q).bind fun b => (g.next k b).bind (g.walk ask n)

def Holds (g : Graph κ τ α) : QTree τ α → κ → Prop
  | .leaf v, k => g.label k = .inl v
  | .node q yes no, k => g.label k = .inr q ∧ ∃ a b, g.next k true = some a ∧
      g.next k false = some b ∧ g.Holds yes a ∧ g.Holds no b

/-- the nodes that are reached -/
def reached (g : Graph κ τ α) : QTree τ α → κ → List κ
  | .leaf _, k => [k]
  | .node _ yes no, k => k :: ((g.next k true).elim [] (g.reached yes) ++
      (g.next k false).elim [] (g.reached no))

theorem walk_leaf {v : α} (h : g.label k = .inl v) : g.walk ask (n + 1) k = some k := by
  rw [walk, h]

theorem walk_node {q : τ} {b : Bool} {j : κ} (h : g.label k = .inr q) (hq : ask q = some b)
    (hj : g.next k b = some j) : g.walk ask (n + 1) k = g.walk ask n j := by
  rw [walk, h]
  show (ask q).bind _ = _
  rw [hq, Option.bind_some, hj, Option.bind_some]

theorem walk_holds (h : g.Holds t k) (hask : ∀ q ∈ t.asked answer, ask q = some (answer q))
    (hn : t.height < n) : ∃ l, g.walk ask n k = some l ∧ g.label l = .inl (t.eval answer) ∧
      l ∈ g.reached t k := by
  obtain ⟨n, rfl⟩ : ∃ m, n = m + 1 := ⟨n - 1, by omega⟩
  induction t generalizing k n with
  | leaf v => exact ⟨k, walk_leaf h, h, List.mem_singleton.mpr rfl⟩
  | node q yes no ihy ihn =>
    obtain ⟨hk, a, b, ha, hb, hyes, hno⟩ := h
    have hq := hask q List.mem_cons_self
    have hrest := fun x hx => hask x (List.mem_cons_of_mem q hx)
    have hlt : max yes.height no.height + 1 < n + 1 := hn
    obtain ⟨m, rfl⟩ : ∃ m, n = m + 1 := ⟨n - 1, by omega⟩
    rw [QTree.eval, reached, ha, hb]
    cases hans : answer q with
    | true =>
      rw [hans] at hq hrest
      obtain ⟨l, hl, hlabel, hin⟩ := ihy hyes hrest m (by omega)
      exact ⟨l, (walk_node hk hq ha).trans hl, hlabel,
        List.mem_cons_of_mem k (List.mem_append_left _ hin)⟩
    | false =>
      rw [hans] at hq hrest
      obtain ⟨l, hl, hlabel, hin⟩ := ihn hno hrest m (by omega)
      exact ⟨l, (walk_node hk hq hb).trans hl, hlabel,
        List.mem_cons_of_mem k (List.mem_append_right _ hin)⟩

theorem walk_eq_iff (h : g.Holds t k) (hnodup : (g.reached t k).Nodup)
    (hask : ∀ q ∈ t.asked answer, ask q = some (answer q))
    (hask' : ∀ q ∈ t.asked answer', ask' q = some (answer' q)) (hn : t.height < n) :
    g.walk ask n k = g.walk ask' n k ↔ ∀ q ∈ t.asked answer, answer' q = answer q := by
  obtain ⟨n, rfl⟩ : ∃ m, n = m + 1 := ⟨n - 1, by omega⟩
  induction t generalizing k n with
  | leaf v => exact ⟨fun _ q hq => (List.not_mem_nil hq).elim, fun _ => by rw [walk_leaf h, walk_leaf h]⟩
  | node q yes no ihy ihn =>
    obtain ⟨hk, a, b, ha, hb, hyes, hno⟩ := h
    have hq := hask q List.mem_cons_self
    have hq' := hask' q List.mem_cons_self
    have hrest := fun x hx => hask x (List.mem_cons_of_mem q hx)
    have hrest' := fun x hx => hask' x (List.mem_cons_of_mem q hx)
    have hlt : max yes.height no.height + 1 < n + 1 := hn
    obtain ⟨m, rfl⟩ : ∃ m, n = m + 1 := ⟨n - 1, by omega⟩
    rw [reached, ha, hb] at hnodup
    obtain ⟨hny, hnn, hdisj⟩ := List.nodup_append.mp (List.nodup_cons.mp hnodup).2
    rw [QTree.asked, List.forall_mem_cons]
    cases hans : answer q <;> cases hans' : answer' q <;> rw [hans] at hq hrest <;>
      rw [hans'] at hq' hrest'
    case true.true =>
      rw [walk_node hk hq ha, walk_node hk hq' ha, ihy hyes hny hrest hrest' m (by omega)]
      exact (and_iff_right rfl).symm
    case false.false =>
      rw [walk_node hk hq hb, walk_node hk hq' hb, ihn hno hnn hrest hrest' m (by omega)]
      exact (and_iff_right rfl).symm
    -- the walks part here, and there is no leaf on both sides
    case true.false =>
      obtain ⟨l, hl, -, hin⟩ := walk_holds hyes hrest (show yes.height < m + 1 by omega)
      obtain ⟨l', hl', -, hin'⟩ := walk_holds hno hrest' (show no.height < m + 1 by omega)
      rw [walk_node hk hq ha, walk_node hk hq' hb, hl, hl']
      exact iff_of_false (fun he => hdisj l hin l' hin' (Option.some.inj he)) fun he =>
        Bool.false_ne_true he.1
    case false.true =>
      obtain ⟨l, hl, -, hin⟩ := walk_holds hno hrest (show no.height < m + 1 by omega)
      obtain ⟨l', hl', -, hin'⟩ := walk_holds hyes hrest' (show yes.height < m + 1 by omega)
      rw [walk_node hk hq hb, walk_node hk hq' ha, hl, hl']
      exact iff_of_false (fun he => hdisj l' hin' l hin (Option.some.inj he).symm)
        fun he => Bool.false_ne_true he.1.symm

end Graph
end Decision
