import Mathlib.Data.List.Infix
import Mathlib.Data.List.TakeWhile
import Mathlib.Data.Rat.Defs
import Mathlib.Algebra.Order.Field.Rat

/-!
# Cutting numbers out of a line

* `find p s`      the place of the first `p` in `s`, `position` the `int` it is kept in;
* `Passes p a`     no `p` begins in `a`, whatever follows `a`: `find_append`, `find_here`, `find_none`;
* `substr`        from a place on, a count of characters; a negative count takes all;
* `stoi`          the integer at the head of a text, `stoi_toDigits`;
* `number`        the decimal number at the head of a text, `number_append`.
-/

set_option linter.unusedSectionVars false

namespace Text

/-! ## the first occurrence -/

section
variable {α : Type*} [DecidableEq α] {p q a b s t : List α} {x y z : α} {k : ℕ} {pos count : ℤ}

def find (p : List α) : List α → Option ℕ
  | [] => if p = [] then some 0 else none
  | x :: s => if p <+: x :: s then some 0 else (find p s).map (· + 1)

def Passes (p : List α) : List α → Prop
  | [] => True
  | x :: a => ¬ p <+: x :: a ∧ ¬ x :: a <+: p ∧ Passes p a

instance decSkips (p : List α) : (a : List α) → Decidable (Passes p a)
  | [] => inferInstanceAs (Decidable True)
  | _ :: a => @instDecidableAnd _ _ _ (@instDecidableAnd _ _ _ (decSkips p a))

/-- what `p` is cut against ends in `x :: a` or goes beyond it -/
theorem not_prefix_append (h : Passes p (x :: a)) (s : List α) : ¬ p <+: x :: (a ++ s) := by
  intro hp
  rcases List.prefix_or_prefix_of_prefix hp (List.prefix_append (x :: a) s) with h' | h'
  · exact h.1 h'
  · exact h.2.1 h'

theorem find_append (h : Passes p a) (s : List α) :
    find p (a ++ s) = (find p s).map (· + a.length) := by
  induction a with
  | nil => simp
  | cons x a ih =>
    show (if p <+: x :: (a ++ s) then some 0 else (find p (a ++ s)).map (· + 1)) = _
    rw [if_neg (not_prefix_append h s), ih h.2.2, Option.map_map]
    rfl

theorem find_self (p s : List α) : find p (p ++ s) = some 0 := by
  cases hps : p ++ s with
  | nil => rw [find, if_pos (List.append_eq_nil_iff.mp hps).1]
  | cons x t => rw [find, if_pos (hps ▸ List.prefix_append p s)]

theorem find_here (h : Passes p a) (s : List α) : find p (a ++ (p ++ s)) = some a.length := by
  rw [find_append h, find_self, Option.map_some, Nat.zero_add]

theorem find_none (h : Passes p a) (hp : p ≠ []) : find p a = none := by
  have hnil := find_append h []
  rw [List.append_nil, find, if_neg hp] at hnil
  exact hnil

/-- an occurrence anywhere is enough -/
theorem find_isSome (p a s : List α) : (find p (a ++ (p ++ s))).isSome = true := by
  induction a with
  | nil =>
    rw [List.nil_append, find_self]
    rfl
  | cons x a ih =>
    show (if p <+: x :: (a ++ (p ++ s)) then some 0 else (find p (a ++ (p ++ s))).map (· + 1)).isSome = _
    split
    · rfl
    · rw [Option.isSome_map, ih]

theorem Passes.append (ha : Passes p a) (hb : Passes p b) : Passes p (a ++ b) := by
  induction a with
  | nil => exact hb
  | cons x a ih =>
    refine ⟨not_prefix_append ha b, fun h => ?_, ih ha.2.2⟩
    exact ha.2.1 ((List.prefix_append (x :: a) b).trans h)

/-- a text without the first character of `p` -/
theorem passes_of_head (h : ∀ x ∈ a, p.head? ≠ some x) (hp : p ≠ []) : Passes p a := by
  induction a with
  | nil => trivial
  | cons x a ih =>
    have hx := h x List.mem_cons_self
    cases p with
    | nil => exact absurd rfl hp
    | cons y q =>
      have hne : y ≠ x := fun he => hx (congrArg some he)
      exact ⟨fun hpre => hne (List.cons_prefix_cons.mp hpre).1,
        fun hpre => hne (List.cons_prefix_cons.mp hpre).1.symm,
        ih fun z hz => h z (List.mem_cons_of_mem x hz)⟩

/-- a text without the second character of `p`, up to a character that is not this one either -/
theorem passes_of_second (ha : ∀ z ∈ a, z ≠ y) (hb : Passes (x :: y :: q) b)
    (hhead : b.head?.any (· ≠ y) = true) : Passes (x :: y :: q) (a ++ b) := by
  induction a with
  | nil => exact hb
  | cons z a ih =>
    have ha' : ∀ z ∈ a, z ≠ y := fun w hw => ha w (List.mem_cons_of_mem z hw)
    -- what follows `z` begins with no `y`
    have hnext : ∃ w t, a ++ b = w :: t ∧ w ≠ y := by
      cases a with
      | cons w t => exact ⟨w, t ++ b, rfl, ha' w List.mem_cons_self⟩
      | nil =>
        cases b with
        | nil => cases hhead
        | cons w t => exact ⟨w, t, rfl, by simpa using hhead⟩
    obtain ⟨w, t, ht, hw⟩ := hnext
    have hrest := ih ha'
    rw [ht] at hrest
    rw [List.cons_append, ht]
    refine ⟨fun hpre => ?_, fun hpre => ?_, hrest⟩
    · exact hw (List.cons_prefix_cons.mp (List.cons_prefix_cons.mp hpre).2).1.symm
    · exact hw (List.cons_prefix_cons.mp (List.cons_prefix_cons.mp hpre).2).1

/-- a `size_t` place kept in an `int`; `npos` becomes -1 -/
def position : Option ℕ → ℤ
  | none => -1
  | some k => (k : ℤ).bmod (2 ^ 32)

theorem position_some (h : k < 2 ^ 31) : position (some k) = (k : ℤ) := by
  unfold position
  exact Int.bmod_eq_of_le_mul_two (by push_cast; omega) (by push_cast; omega)

/-! ## a part of a text -/

/-- `none` where `std::out_of_range` is thrown; negative numbers are large ones of `size_t` -/
def substr (s : List α) (pos count : ℤ) : Option (List α) :=
  if pos < 0 ∨ s.length < pos then none
  else if count < 0 then some (s.drop pos.toNat)
  else some ((s.drop pos.toNat).take count.toNat)

theorem substr_append (hp : pos = a.length) :
    substr (a ++ s) pos count = some (if count < 0 then s else s.take count.toNat) := by
  subst hp
  rw [substr, if_neg (by rw [List.length_append]; omega), Int.toNat_natCast, List.drop_left]
  split <;> rfl

theorem substr_mid (hs : t = a ++ (b ++ s)) (hp : pos = a.length) (hn : count = b.length) :
    substr t pos count = some b := by
  rw [hs, substr_append hp, if_neg (by omega), hn, Int.toNat_natCast, List.take_left]

theorem substr_tail (hs : t = a ++ s) (hp : pos = a.length) (hn : count < 0) :
    substr t pos count = some s := by
  rw [hs, substr_append hp, if_pos hn]

end

/-! ## integers -/

section
variable {n : ℕ} {c : Char} {s t : List Char}

/-- `isspace` -/
def space (c : Char) : Bool := c = ' ' || 9 ≤ c.toNat && c.toNat ≤ 13

/-- a minus sign is there, and the text after the sign -/
def sign : List Char → Bool × List Char
  | '-' :: s => (true, s)
  | '+' :: s => (false, s)
  | s => (false, s)

def signed (minus : Bool) (n : ℕ) : ℤ := if minus then -n else n

/-- `none` where `std::invalid_argument` or `std::out_of_range` is thrown -/
def stoi (s : List Char) : Option ℤ :=
  let (minus, t) := sign (s.dropWhile space)
  let digits := t.takeWhile Char.isDigit
  let n := signed minus (Nat.ofDigitChars 10 digits 0)
  if digits ≠ [] ∧ -2 ^ 31 ≤ n ∧ n < 2 ^ 31 then some n else none

theorem isDigit_of_mem_toDigits (h : c ∈ Nat.toDigits 10 n) : c.isDigit = true :=
  Nat.isDigit_of_mem_toDigits (by omega) (by omega) h

theorem not_space_of_isDigit (h : c.isDigit = true) : space c = false := by
  have h48 : 48 ≤ c.toNat ∧ c.toNat ≤ 57 := by
    rw [Char.isDigit, Bool.and_eq_true, decide_eq_true_eq, decide_eq_true_eq] at h
    exact ⟨h.1, h.2⟩
  have hne : c ≠ ' ' := by
    rintro rfl
    exact absurd h48.1 (by decide)
  simp only [space, hne, decide_false, Bool.false_or]
  rw [Bool.and_eq_false_iff, decide_eq_false_iff_not, decide_eq_false_iff_not]
  exact Or.inr (by omega)

theorem stoi_toDigits (h : n < 2 ^ 31) : stoi (Nat.toDigits 10 n) = some (n : ℤ) := by
  obtain ⟨c, s, hs⟩ := List.exists_cons_of_ne_nil (Nat.toDigits_ne_nil (n := n) (b := 10))
  have hall : ∀ x ∈ c :: s, x.isDigit = true := fun x hx => isDigit_of_mem_toDigits (hs ▸ hx)
  have hc := hall c List.mem_cons_self
  have hsign : sign (c :: s) = (false, c :: s) := by
    unfold sign
    split
    · next he =>
      cases he
      cases hc
    · next he =>
      cases he
      cases hc
    · rfl
  have hval : Nat.ofDigitChars 10 (c :: s) 0 = n := by rw [← hs, Nat.ofDigitChars_ten_toDigits]
  rw [hs, stoi, List.dropWhile_cons_of_neg (by rw [not_space_of_isDigit hc]; decide), hsign]
  simp only []
  rw [List.takeWhile_eq_self_iff.mpr hall, hval]
  exact if_pos ⟨List.cons_ne_nil c s, by show (-2 ^ 31 : ℤ) ≤ (n : ℤ); omega, by show (n : ℤ) < 2 ^ 31; omega⟩

end

/-! ## decimal numbers -/

section
variable {c : Char} {s t : List Char}

/-- the characters of a decimal number -/
def numeric (c : Char) : Bool := c.isDigit || c = '+' || c = '-' || c = '.' || c = 'e' || c = 'E'

/-- the digits after a point, and what follows them -/
def fraction : List Char → List Char × List Char
  | '.' :: s => (s.takeWhile Char.isDigit, s.dropWhile Char.isDigit)
  | s => ([], s)

/-- the power of ten after an `e`; an `e` without digits is not part of the number -/
def exponent : List Char → ℤ
  | [] => 0
  | c :: s => if c = 'e' ∨ c = 'E' then
      signed (sign s).1 (Nat.ofDigitChars 10 ((sign s).2.takeWhile Char.isDigit) 0) else 0

/-- the longest decimal number that `t` begins with -/
def decimal (t : List Char) : Option ℚ :=
  let (minus, t) := sign t
  let whole := t.takeWhile Char.isDigit
  let (part, t) := fraction (t.dropWhile Char.isDigit)
  if whole ++ part = [] then none
  else some (signed minus (Nat.ofDigitChars 10 (whole ++ part) 0) * 10 ^ (exponent t - part.length))

/-- as `strtod` reads; a text that begins with `inf`, `nan` or `0x` is not told apart -/
def number (s : List Char) : Option ℚ := decimal ((s.dropWhile space).takeWhile numeric)

theorem not_space_of_numeric (h : numeric c = true) : space c = false := by
  simp only [numeric, Bool.or_eq_true, decide_eq_true_eq] at h
  rcases h with ((((h | rfl) | rfl) | rfl) | rfl) | rfl
  · exact not_space_of_isDigit h
  all_goals rfl

/-- a number ends before the first character that none is written with -/
theorem number_append (ht : ∀ x ∈ t, numeric x = true) (hne : t ≠ []) (hc : numeric c = false) :
    number (t ++ c :: s) = number t := by
  have hdrop (u : List Char) : (t ++ u).dropWhile space = t ++ u := by
    cases t with
    | nil => exact absurd rfl hne
    | cons x t =>
      exact List.dropWhile_cons_of_neg (by rw [not_space_of_numeric (ht x List.mem_cons_self)]; decide)
  have hself : t.dropWhile space = t := by
    have h := hdrop []
    rwa [List.append_nil] at h
  unfold number
  rw [hdrop, hself, List.takeWhile_eq_self_iff.mpr ht, List.takeWhile_append_of_pos ht,
    List.takeWhile_cons_of_neg (by rw [hc]; decide), List.append_nil]

end

/-! ## lines put together of pieces -/

structure Numeral where
  text : List Char
  plain : ∀ c ∈ text, numeric c = true
  nonempty : text ≠ []

/-- a fixed text, the digits of a natural number, a decimal number, or any text -/
inductive Piece
  | lit (s : String)
  | dec (n : ℕ)
  | num (v : Numeral)
  | free (s : List Char)

namespace Piece

def text : Piece → List Char
  | lit s => s.toList
  | dec n => Nat.toDigits 10 n
  | num v => v.text
  | free s => s

def render (l : List Piece) : List Char := (l.map text).flatten

/-- a text of the pieces begins with another character than `y` -/
def startsWithout (y : Char) : List Piece → Bool
  | lit s :: _ => s.toList.head?.any (· ≠ y)
  | dec _ :: _ => !y.isDigit
  | num _ :: _ => !numeric y
  | _ => false

/-- `p` does not occur in `a`, and does not begin there and go on in the pieces -/
def clearLit (p : List Char) (l : List Piece) : List Char → Bool
  | [] => true
  | x :: a => !decide (p <+: x :: a) &&
      (!decide (x :: a <+: p) || p[a.length + 1]?.any fun y => startsWithout y l) && clearLit p l a

/-- no piece gives rise to an occurrence of `p`; of a free text this is not known -/
def clear (p : List Char) : List Piece → Bool
  | [] => true
  | lit s :: l => clearLit p l s.toList && clear p l
  | dec _ :: l => p.head?.any (fun c => !c.isDigit) && clear p l
  | num _ :: l => (p.head?.any (fun c => !numeric c) ||
      p[1]?.any fun y => !numeric y && startsWithout y l) && clear p l
  | free _ :: l => clear p l

def isFree : Piece → Bool
  | free _ => true
  | _ => false

/-- the free texts among the pieces are without `p`, too -/
def Quiet (p : List Char) (l : List Piece) : Prop := ∀ s, free s ∈ l → Passes p s

end Piece

open Piece

section
variable {l : List Piece} {p b : List Char} {k : ℕ} {pos count : ℤ}

theorem passes_of_class {P : Char → Bool} {a : List Char} (hp : p.head?.any (fun c => !P c) = true)
    (ha : ∀ c ∈ a, P c = true) : Passes p a := by
  cases p with
  | nil => cases hp
  | cons c p =>
    refine passes_of_head (fun x hx he => ?_) (List.cons_ne_nil c p)
    obtain rfl : c = x := Option.some.inj he
    rw [List.head?_cons, Option.any_some, ha c hx] at hp
    cases hp

theorem head_of_startsWithout {y : Char} (h : startsWithout y l = true) :
    ∃ c t, render l = c :: t ∧ c ≠ y := by
  match l, h with
  | lit s :: l, h =>
    rw [startsWithout] at h
    cases hs : s.toList with
    | nil =>
      rw [hs] at h
      cases h
    | cons c t =>
      rw [hs] at h
      refine ⟨c, t ++ render l, ?_, of_decide_eq_true h⟩
      show s.toList ++ render l = _
      rw [hs]
      rfl
  | dec n :: l, h =>
    obtain ⟨c, t, ht⟩ := List.exists_cons_of_ne_nil (Nat.toDigits_ne_nil (n := n) (b := 10))
    refine ⟨c, t ++ render l, ?_, ?_⟩
    · show Nat.toDigits 10 n ++ render l = _
      rw [ht]
      rfl
    · rintro rfl
      have hd : c.isDigit = true := isDigit_of_mem_toDigits (ht ▸ List.mem_cons_self)
      rw [startsWithout, hd] at h
      cases h
  | num v :: l, h =>
    obtain ⟨c, t, ht⟩ := List.exists_cons_of_ne_nil v.nonempty
    refine ⟨c, t ++ render l, ?_, ?_⟩
    · show v.text ++ render l = _
      rw [ht]
      rfl
    · rintro rfl
      have hd : numeric c = true := v.plain c (ht ▸ List.mem_cons_self)
      rw [startsWithout, hd] at h
      cases h

theorem passes_lit {a : List Char} (ha : clearLit p l a = true) (hl : Passes p (render l)) :
    Passes p (a ++ render l) := by
  induction a with
  | nil => exact hl
  | cons x a ih =>
    obtain ⟨h12, h3⟩ := Bool.and_eq_true_iff.mp ha
    obtain ⟨h1, h2⟩ := Bool.and_eq_true_iff.mp h12
    have hno : ¬ p <+: x :: a := by simpa using h1
    rcases Bool.or_eq_true_iff.mp h2 with h2 | h2
    · have hno' : ¬ x :: a <+: p := by simpa using h2
      refine ⟨fun hp => ?_, fun hp => hno' ((List.prefix_append (x :: a) _).trans hp), ih h3⟩
      rcases List.prefix_or_prefix_of_prefix hp (List.prefix_append (x :: a) (render l)) with h | h
      · exact hno h
      · exact hno' h
    · -- `p` would have to go on with `y`, and the pieces do not
      obtain ⟨y, hy, hwithout⟩ := (Option.any_eq_true _ _).mp h2
      obtain ⟨c, t, ht, hne⟩ := head_of_startsWithout hwithout
      have hc : (x :: a ++ c :: t)[a.length + 1]? = some c := by simp
      rw [ht] at ih ⊢
      refine ⟨fun hp => ?_, fun hp => ?_, ih h3⟩
      · obtain ⟨u, hu⟩ := hp
        have hlt := (List.getElem?_eq_some_iff.mp hy).1
        have he : (p ++ u)[a.length + 1]? = some y := by rw [List.getElem?_append_left hlt, hy]
        rw [hu] at he
        exact hne (Option.some.inj (hc.symm.trans he))
      · obtain ⟨u, hu⟩ := hp
        have he : p[a.length + 1]? = some c := by
          rw [← hu]
          show ((x :: a ++ c :: t) ++ u)[a.length + 1]? = _
          rw [List.getElem?_append_left (by simp), hc]
        exact hne (Option.some.inj (he.symm.trans hy))

theorem passes_num {v : Numeral} {y : Char} (hy : p[1]? = some y) (hnum : numeric y = false)
    (hl : startsWithout y l = true) (hrest : Passes p (render l)) : Passes p (v.text ++ render l) := by
  obtain ⟨c, t, ht, hne⟩ := head_of_startsWithout hl
  match p, hy with
  | x :: z :: q, hy =>
    obtain rfl : z = y := Option.some.inj hy
    refine passes_of_second (fun w hw he => ?_) hrest ?_
    · rw [← he, v.plain w hw] at hnum
      cases hnum
    · rw [ht]
      exact decide_eq_true hne

theorem passes_render (h : clear p l = true) (hq : Quiet p l) : Passes p (render l) := by
  induction l with
  | nil => trivial
  | cons x l ih =>
    have hrest (hl : clear p l = true) := ih hl fun s hs => hq s (List.mem_cons_of_mem x hs)
    cases x with
    | lit s =>
      obtain ⟨hs, hl⟩ := Bool.and_eq_true_iff.mp h
      exact passes_lit hs (hrest hl)
    | dec n =>
      obtain ⟨hp, hl⟩ := Bool.and_eq_true_iff.mp h
      exact (passes_of_class hp fun c hc => isDigit_of_mem_toDigits hc).append (hrest hl)
    | free s => exact (hq s List.mem_cons_self).append (hrest h)
    | num v =>
      obtain ⟨hp, hl⟩ := Bool.and_eq_true_iff.mp h
      rcases Bool.or_eq_true_iff.mp hp with hp | hp
      · exact (passes_of_class hp v.plain).append (hrest hl)
      · obtain ⟨y, hy, hnext⟩ := (Option.any_eq_true _ _).mp hp
        obtain ⟨hnum, hnext⟩ := Bool.and_eq_true_iff.mp hnext
        exact passes_num hy (by simpa using hnum) hnext (hrest hl)

theorem quiet_of_none (h : l.any isFree = false) : Quiet p l := by
  intro s hs
  have hfree := List.any_eq_false.mp h (free s) hs
  exact absurd rfl hfree

/-- where piece `k` begins -/
def off (l : List Piece) (k : ℕ) : ℕ := (render (l.take k)).length

theorem render_split (l : List Piece) (k : ℕ) : render l = render (l.take k) ++ render (l.drop k) := by
  rw [render, render, render, ← List.flatten_append, ← List.map_append, List.take_append_drop]

theorem off_le (l : List Piece) (k : ℕ) : off l k ≤ (render l).length := by
  rw [render_split l k, List.length_append]
  exact Nat.le_add_right ..

theorem find_render (k : ℕ) (hk : p <+: render (l.drop k)) (h : clear p (l.take k) = true)
    (hq : Quiet p (l.take k)) : find p (render l) = some (off l k) := by
  obtain ⟨s, hs⟩ := hk
  rw [render_split l k, ← hs]
  exact find_here (passes_render h hq) s

/-- the pieces from `j` up to `k` -/
theorem substr_range (j k : ℕ) (hp : pos = off l j) (hn : count = (render ((l.drop j).take k)).length) :
    substr (render l) pos count = some (render ((l.drop j).take k)) := by
  have hsplit : render l = render (l.take j) ++ (render ((l.drop j).take k) ++
      render ((l.drop j).drop k)) := by
    rw [← render_split, ← render_split]
  exact substr_mid hsplit hp hn

theorem substr_render (k : ℕ) {x : Piece} (hk : l[k]? = some x) (hp : pos = off l k)
    (hn : count = x.text.length) : substr (render l) pos count = some x.text := by
  obtain ⟨hlt, hx⟩ := List.getElem?_eq_some_iff.mp hk
  have hdrop : render (l.drop k) = x.text ++ render (l.drop (k + 1)) := by
    rw [List.drop_eq_getElem_cons hlt, hx]
    rfl
  exact substr_mid (by rw [render_split l k, hdrop]) hp hn

theorem substr_rest (k : ℕ) (hp : pos = off l k) (hn : count < 0) :
    substr (render l) pos count = some (render (l.drop k)) :=
  substr_tail (render_split l k) hp hn

end

end Text
