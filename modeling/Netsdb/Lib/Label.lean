import Mathlib.Data.List.Infix

/-!
# Numbered names

* `label s n`     the text of `s`, an underscore and the decimal digits of `n`;
* `label_inj`     both parts can be read back from the name;
* `Within u t`    the text `u` occurs in `t`;
* `mem_label`     the characters of a name.
-/

namespace Label
variable {s t u : String} {m n : Nat} {α : Type*} {a : α} {x y z w : List α}

def label (s : String) (n : Nat) : String := s ++ "_" ++ toString n

theorem toList_label (s : String) (n : Nat) :
    (label s n).toList = s.toList ++ '_' :: Nat.toDigits 10 n := by
  unfold label
  rw [String.toList_append, String.toList_append]
  show (s.toList ++ "_".toList) ++ (n.repr).toList = _
  rw [Nat.toList_repr, List.append_assoc]
  rfl

theorem label_ne_empty (s : String) (n : Nat) : label s n ≠ "" := by
  intro h
  have hl := toList_label s n
  rw [h] at hl
  have hm : '_' ∈ "".toList := by
    rw [hl]
    exact List.mem_append_right _ List.mem_cons_self
  cases hm

/-- two lists that are equal are cut at the same place by their first `a` -/
theorem cut_at_first (hx : a ∉ x) (hy : a ∉ y) (h : x ++ a :: z = y ++ a :: w) :
    x = y ∧ z = w := by
  induction x generalizing y with
  | nil =>
    cases y with
    | nil => exact ⟨rfl, (List.cons.inj h).2⟩
    | cons b y =>
      have hab : a = b := (List.cons.inj h).1
      exact absurd (hab ▸ List.mem_cons_self) hy
  | cons b x ih =>
    cases y with
    | nil =>
      have hab : b = a := (List.cons.inj h).1
      exact absurd (hab ▸ List.mem_cons_self) hx
    | cons c y =>
      obtain ⟨hbc, ht⟩ := List.cons.inj h
      obtain ⟨hxy, hzw⟩ := ih (fun hm => hx (List.mem_cons_of_mem b hm))
        (fun hm => hy (List.mem_cons_of_mem c hm)) ht
      exact ⟨by rw [hbc, hxy], hzw⟩

theorem toDigits_inj (h : Nat.toDigits 10 m = Nat.toDigits 10 n) : m = n := by
  rw [← Nat.ofDigitChars_ten_toDigits (n := m), h, Nat.ofDigitChars_ten_toDigits]

/-- the digits hold no underscore, so the last one of the name ends `s` -/
theorem label_inj (h : label s m = label t n) : s = t ∧ m = n := by
  have hr : ((label s m).toList).reverse = ((label t n).toList).reverse := by rw [h]
  rw [toList_label, toList_label, List.reverse_append, List.reverse_append, List.reverse_cons,
    List.reverse_cons, List.append_assoc, List.append_assoc] at hr
  have hd (k : Nat) : '_' ∉ (Nat.toDigits 10 k).reverse := by
    rw [List.mem_reverse]
    exact Nat.underscore_not_in_toDigits
  obtain ⟨h1, h2⟩ := cut_at_first (hd m) (hd n) hr
  exact ⟨String.toList_inj.mp (List.reverse_injective h2), toDigits_inj (List.reverse_injective h1)⟩

/-- the text `u` occurs in `t` -/
def Within (u t : String) : Prop := u.toList <:+: t.toList

instance (u t : String) : Decidable (Within u t) := inferInstanceAs (Decidable (_ <:+: _))

theorem mem_label {c : Char} (h : c ∈ (label s n).toList) :
    c ∈ s.toList ∨ c = '_' ∨ c.isDigit = true := by
  rw [toList_label, List.mem_append, List.mem_cons] at h
  rcases h with h | rfl | h
  · exact Or.inl h
  · exact Or.inr (Or.inl rfl)
  · exact Or.inr (Or.inr (Nat.isDigit_of_mem_toDigits (by omega) (by omega) h))

/-- a text with a character that a name has not is not in the name -/
theorem not_within_label {c : Char} (hu : c ∈ u.toList) (hs : c ∉ s.toList) (h_ : c ≠ '_')
    (hd : c.isDigit = false) : ¬ Within u (label s n) := by
  intro hw
  rcases mem_label (hw.subset hu) with h | h | h
  · exact hs h
  · exact h_ h
  · rw [hd] at h
    cases h

end Label
