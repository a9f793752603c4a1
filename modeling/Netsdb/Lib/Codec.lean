import Mathlib.Data.List.Perm.Basic
import Mathlib.Tactic.Ring

/-!
# Little-endian numbers, and readers that undo a writer

A writer is a list of bytes.  A reader walks over a list of bytes and fails when it runs past the
end; `Reads r bs a` says that `r`, put before the bytes `bs` and anything behind them, returns `a`
and stops exactly behind `bs`.

* `le`, `ofLe`      a number as `w` bytes, least byte first, and back;
* `number`, `cstr`, `skip`  read a number, look at a string that ends with a zero byte, step over
  bytes;
* `Reads.bind`, `Reads.repeatRead`  what a sequence and a loop of readers reads back.
-/

namespace Codec

/-! ## Numbers -/

/-- the `w` low bytes of `n`, least byte first -/
def le : Nat → Nat → List UInt8
  | 0, _ => []
  | w + 1, n => UInt8.ofNat n :: le w (n / 256)

def ofLe : List UInt8 → Nat
  | [] => 0
  | b :: bs => b.toNat + 256 * ofLe bs

@[simp] theorem length_le (w n : Nat) : (le w n).length = w := by
  induction w generalizing n with
  | zero => rfl
  | succ w ih =>
    rw [le, List.length_cons, ih]

theorem ofLe_le (w n : Nat) : ofLe (le w n) = n % 256 ^ w := by
  induction w generalizing n with
  | zero =>
    rw [le, ofLe, pow_zero, Nat.mod_one]
  | succ w ih =>
    rw [le, ofLe, ih, pow_succ', Nat.mod_mul]
    rfl

theorem ofLe_le_of_lt {w n : Nat} (h : n < 256 ^ w) : ofLe (le w n) = n := by
  rw [ofLe_le, Nat.mod_eq_of_lt h]

theorem le_ofLe (bs : List UInt8) : le bs.length (ofLe bs) = bs := by
  induction bs with
  | nil => rfl
  | cons b bs ih =>
    have hb : b.toNat < 256 := b.toNat_lt
    have hdiv : (b.toNat + 256 * ofLe bs) / 256 = ofLe bs := by omega
    have hbyte : UInt8.ofNat (b.toNat + 256 * ofLe bs) = b := by
      apply UInt8.toNat_inj.mp
      show (b.toNat + 256 * ofLe bs) % 2 ^ 8 = b.toNat
      omega
    rw [List.length_cons, le, ofLe, hdiv, ih, hbyte]

theorem ofLe_lt (bs : List UInt8) : ofLe bs < 256 ^ bs.length := by
  induction bs with
  | nil => exact Nat.one_pos
  | cons b bs ih =>
    have hb : b.toNat < 256 := b.toNat_lt
    rw [ofLe, List.length_cons, pow_succ]
    omega

/-! ## Readers -/

abbrev Reader (α : Type) := StateT (List UInt8) Option α

/-- read a number of `w` bytes -/
def number (w : Nat) : Reader Nat := fun bs =>
  if w ≤ bs.length then some (ofLe (bs.take w), bs.drop w) else none

/-- the string that starts here and ends before the first zero byte; the position stays -/
def cstr : Reader (List UInt8) := fun bs =>
  if 0 ∈ bs then some (bs.takeWhile (· ≠ 0), bs) else none

def skip (n : Nat) : Reader Unit := fun bs => if n ≤ bs.length then some ((), bs.drop n) else none

/-- `body` for `n` times, on a state `s` -/
def repeatRead {σ : Type} (body : σ → Reader σ) : Nat → σ → Reader σ
  | 0, s => pure s
  | n + 1, s => do
    let s ← body s
    repeatRead body n s

def Reads {α : Type} (r : Reader α) (bs : List UInt8) (a : α) : Prop :=
  ∀ rest, r (bs ++ rest) = some (a, rest)

section
variable {α β σ ι : Type} {r : Reader α} {bs cs : List UInt8} {a : α}

theorem Reads.pure (a : α) : Reads (Pure.pure a) [] a := fun _ => rfl

theorem Reads.bind {f : α → Reader β} {b : β} (h : Reads r bs a) (hf : Reads (f a) cs b) :
    Reads (r >>= f) (bs ++ cs) b := by
  intro rest
  show (r (bs ++ cs ++ rest)).bind (fun p => f p.1 p.2) = some (b, rest)
  rw [List.append_assoc, h (cs ++ rest)]
  exact hf rest

/-- a reader that gives what it read, or something made of it -/
theorem Reads.map {f : α → β} (h : Reads r bs a) : Reads (r >>= fun x => Pure.pure (f x)) bs (f a) := by
  have hb : Reads (r >>= fun x => Pure.pure (f x)) (bs ++ []) (f a) := h.bind (.pure (f a))
  rwa [List.append_nil] at hb

theorem reads_number {w n : Nat} (h : n < 256 ^ w) : Reads (number w) (le w n) n := by
  intro rest
  unfold number
  have hlen : w ≤ (le w n ++ rest).length := by
    rw [List.length_append, length_le]
    exact Nat.le_add_right w _
  rw [if_pos hlen, List.take_left' (length_le w n), List.drop_left' (length_le w n),
    ofLe_le_of_lt h]

/-- look at a string, then step behind its zero byte -/
theorem reads_cstr_skip {s : List UInt8} {n : Nat} (f : List UInt8 → β) (h : 0 ∉ s)
    (hn : n = s.length + 1) :
    Reads (do let p ← cstr; skip n; Pure.pure (f p)) (s ++ [0]) (f s) := by
  intro rest
  have hs : (s ++ [0] ++ rest).takeWhile (· ≠ 0) = s := by
    rw [List.append_assoc, List.takeWhile_append_of_pos]
    · simp
    · intro b hb
      exact decide_eq_true fun h0 => h (h0 ▸ hb)
  have hc : cstr (s ++ [0] ++ rest) = some (s, s ++ [0] ++ rest) := by
    unfold cstr
    rw [if_pos (by simp), hs]
  have hk : skip n (s ++ [0] ++ rest) = some ((), rest) := by
    unfold skip
    rw [if_pos (by simp [hn]), List.drop_left' (by simp [hn])]
  show (cstr (s ++ [0] ++ rest)).bind (fun p =>
    (skip n p.2).bind fun q => some (f p.1, q.2)) = _
  rw [hc]
  show (skip n (s ++ [0] ++ rest)).bind (fun q => some (f s, q.2)) = _
  rw [hk]
  rfl

/-- **Loop rule.**  A loop over written items folds the step of its body over them. -/
theorem Reads.repeatRead {body : σ → Reader σ} {enc : ι → List UInt8} {next : σ → ι → σ}
    (items : List ι) (s : σ) (h : ∀ i ∈ items, ∀ s, Reads (body s) (enc i) (next s i)) :
    Reads (repeatRead body items.length s) (items.flatMap enc) (items.foldl next s) := by
  induction items generalizing s with
  | nil => exact .pure s
  | cons i items ih =>
    rw [List.flatMap_cons, List.foldl_cons]
    refine Reads.bind (h i List.mem_cons_self s) ?_
    exact ih (next s i) fun j hj => h j (List.mem_cons_of_mem i hj)

end

/-- the bytes of a loop over items of one size -/
theorem length_flatMap_const {ι : Type} {enc : ι → List UInt8} {n : Nat} (items : List ι)
    (h : ∀ i ∈ items, (enc i).length = n) : (items.flatMap enc).length = n * items.length := by
  induction items with
  | nil => rfl
  | cons i items ih =>
    rw [List.flatMap_cons, List.length_append, h i List.mem_cons_self,
      ih fun j hj => h j (List.mem_cons_of_mem i hj), List.length_cons]
    ring

end Codec
