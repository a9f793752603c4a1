import Mathlib.Data.Int.Log
import Mathlib.Data.Rat.Floor
import Mathlib.Tactic.Linarith
import Mathlib.Tactic.Positivity

/-!
# Quotients of integers as numbers of 24 binary digits

A positive number is rounded to the nearest one of 24 binary digits, ties to even; the exponent has no
bounds, which quotients of 32-bit integers do not come near to.

* `roundEven`      to an integer;
* `round`          to 24 binary digits: monotone, and `1` stays;
* `ceilDiv`        `ceil (a / (float) b)`;
* `ceilDiv_of_le`  it is 1 where `0 < a ≤ b`;
* `ceilDiv_eq`     it is the exact one where both are below `2 ^ 24`.
-/

namespace Binary32

/-! ## To an integer -/

def roundEven (q : ℚ) : ℤ :=
  if q - ⌊q⌋ < 1 / 2 then ⌊q⌋
  else if 1 / 2 < q - ⌊q⌋ then ⌊q⌋ + 1
  else if ⌊q⌋ % 2 = 0 then ⌊q⌋
  else ⌊q⌋ + 1

variable {p q : ℚ}

theorem roundEven_cases (q : ℚ) :
    roundEven q = ⌊q⌋ ∧ q - ⌊q⌋ ≤ 1 / 2 ∨ roundEven q = ⌊q⌋ + 1 ∧ 1 / 2 ≤ q - ⌊q⌋ := by
  unfold roundEven
  split
  · next h => exact .inl ⟨rfl, h.le⟩
  · next h =>
    split
    · next h' => exact .inr ⟨rfl, h'.le⟩
    · next h' =>
      split
      · exact .inl ⟨rfl, not_lt.mp h'⟩
      · exact .inr ⟨rfl, not_lt.mp h⟩

/-- at most half away -/
theorem abs_roundEven_sub (q : ℚ) : |(roundEven q : ℚ) - q| ≤ 1 / 2 := by
  have hlo := Int.floor_le q
  have hhi := Int.lt_floor_add_one q
  rcases roundEven_cases q with ⟨h, hq⟩ | ⟨h, hq⟩ <;> rw [h, abs_le]
  · constructor <;> linarith
  · push_cast
    constructor <;> linarith

theorem roundEven_intCast (n : ℤ) : roundEven n = n := by
  rw [roundEven, Int.floor_intCast, sub_self, if_pos (by norm_num)]

theorem roundEven_mono (h : p ≤ q) : roundEven p ≤ roundEven q := by
  by_cases hf : ⌊p⌋ = ⌊q⌋
  · unfold roundEven
    rw [hf]
    split_ifs <;> first | omega | (exfalso; linarith)
  · have hlt : ⌊p⌋ + 1 ≤ ⌊q⌋ := lt_of_le_of_ne (Int.floor_le_floor h) hf
    have hp : roundEven p ≤ ⌊p⌋ + 1 := by
      rcases roundEven_cases p with ⟨h, -⟩ | ⟨h, -⟩ <;> omega
    have hq : ⌊q⌋ ≤ roundEven q := by
      rcases roundEven_cases q with ⟨h, -⟩ | ⟨h, -⟩ <;> omega
    exact hp.trans (hlt.trans hq)

/-! ## To 24 binary digits -/

/-- the exponent of the last of the digits -/
def lastDigit (q : ℚ) : ℤ := Int.log 2 q - 23

def round (q : ℚ) : ℚ := roundEven (q / 2 ^ lastDigit q) * 2 ^ lastDigit q

theorem ulp_pos (q : ℚ) : (0 : ℚ) < 2 ^ lastDigit q := zpow_pos (by norm_num) _

/-- the digits and where they stand -/
theorem mul_ulp (q : ℚ) (k : ℤ) : (2 : ℚ) ^ (23 + k) * 2 ^ lastDigit q = 2 ^ (Int.log 2 q + k) := by
  rw [← zpow_add₀ two_ne_zero, lastDigit]
  congr 1
  ring

theorem digits_bounds (hq : 0 < q) :
    ((2 ^ 23 : ℕ) : ℤ) ≤ roundEven (q / 2 ^ lastDigit q) ∧
      roundEven (q / 2 ^ lastDigit q) ≤ ((2 ^ 24 : ℕ) : ℤ) := by
  have hlo : (2 : ℚ) ^ Int.log 2 q ≤ q := by
    exact_mod_cast Int.zpow_log_le_self (b := 2) one_lt_two hq
  have hhi : q < (2 : ℚ) ^ (Int.log 2 q + 1) := by
    exact_mod_cast Int.lt_zpow_succ_log_self (b := 2) one_lt_two q
  have h23 : (((2 ^ 23 : ℕ) : ℤ) : ℚ) * 2 ^ lastDigit q = 2 ^ Int.log 2 q := by
    rw [show (((2 ^ 23 : ℕ) : ℤ) : ℚ) = 2 ^ (23 + 0 : ℤ) by norm_num, mul_ulp, add_zero]
  have h24 : (((2 ^ 24 : ℕ) : ℤ) : ℚ) * 2 ^ lastDigit q = 2 ^ (Int.log 2 q + 1) := by
    rw [show (((2 ^ 24 : ℕ) : ℤ) : ℚ) = 2 ^ (23 + 1 : ℤ) by norm_num, mul_ulp]
  constructor
  · rw [← roundEven_intCast ((2 ^ 23 : ℕ) : ℤ)]
    refine roundEven_mono ((le_div_iff₀ (ulp_pos q)).mpr ?_)
    rw [h23]
    exact hlo
  · rw [← roundEven_intCast ((2 ^ 24 : ℕ) : ℤ)]
    refine roundEven_mono ((div_le_iff₀ (ulp_pos q)).mpr ?_)
    rw [h24]
    exact hhi.le

/-- a number stays between the powers of two around it -/
theorem round_bounds (hq : 0 < q) :
    (2 : ℚ) ^ Int.log 2 q ≤ round q ∧ round q ≤ 2 ^ (Int.log 2 q + 1) := by
  obtain ⟨hlo, hhi⟩ := digits_bounds hq
  have h0 := mul_ulp q 0
  rw [add_zero (Int.log 2 q)] at h0
  rw [← h0, ← mul_ulp q 1]
  constructor
  · refine mul_le_mul_of_nonneg_right ?_ (ulp_pos q).le
    rw [show (2 : ℚ) ^ (23 + 0 : ℤ) = (((2 ^ 23 : ℕ) : ℤ) : ℚ) by norm_num]
    exact_mod_cast hlo
  · refine mul_le_mul_of_nonneg_right ?_ (ulp_pos q).le
    rw [show (2 : ℚ) ^ (23 + 1 : ℤ) = (((2 ^ 24 : ℕ) : ℤ) : ℚ) by norm_num]
    exact_mod_cast hhi

theorem round_pos (hq : 0 < q) : 0 < round q :=
  lt_of_lt_of_le (zpow_pos (by norm_num) _) (round_bounds hq).1

theorem round_mono (hp : 0 < p) (h : p ≤ q) : round p ≤ round q := by
  have hq := lt_of_lt_of_le hp h
  have hlog : Int.log 2 p ≤ Int.log 2 q := Int.log_mono_right hp h
  rcases hlog.lt_or_eq with hlt | heq
  · have hstep : (2 : ℚ) ^ (Int.log 2 p + 1) ≤ 2 ^ Int.log 2 q :=
      zpow_le_zpow_right₀ one_le_two hlt
    exact (round_bounds hp).2.trans (hstep.trans (round_bounds hq).1)
  · have hdigit : lastDigit p = lastDigit q := by rw [lastDigit, lastDigit, heq]
    rw [round, round, hdigit]
    refine mul_le_mul_of_nonneg_right ?_ (ulp_pos q).le
    exact_mod_cast roundEven_mono (div_le_div_of_nonneg_right h (ulp_pos q).le)

/-- a multiple of the last digit stays -/
theorem round_eq_self {n : ℤ} (h : q = n * 2 ^ lastDigit q) : round q = q := by
  have hdiv : q / 2 ^ lastDigit q = n := by
    rw [div_eq_iff (ulp_pos q).ne']
    exact h
  rw [round, hdiv, roundEven_intCast, ← h]

/-- an integer of at most 24 digits stays -/
theorem round_natCast {n : ℕ} (hn : n < 2 ^ 24) : round n = n := by
  rcases Nat.eq_zero_or_pos n with rfl | hpos
  · rw [round, Nat.cast_zero, zero_div, show (0 : ℚ) = ((0 : ℤ) : ℚ) from rfl, roundEven_intCast]
    norm_num
  · have hlast : lastDigit n ≤ 0 := by
      have hlog : Int.log 2 (n : ℚ) < 24 := by
        rw [Int.log_natCast]
        exact_mod_cast Nat.log_lt_of_lt_pow hpos.ne' hn
      rw [lastDigit]
      omega
    obtain ⟨k, hk⟩ := Int.exists_eq_neg_ofNat hlast
    refine round_eq_self (n := n * 2 ^ k) ?_
    rw [hk, zpow_neg, zpow_natCast]
    push_cast
    rw [mul_assoc, mul_inv_cancel₀ (pow_ne_zero _ two_ne_zero), mul_one]

/-- off by at most the 24th part of a power of two -/
theorem abs_round_sub (hq : 0 < q) : |round q - q| ≤ q / 2 ^ 24 := by
  have hulp := ulp_pos q
  have hround : round q - q = (roundEven (q / 2 ^ lastDigit q) - q / 2 ^ lastDigit q) * 2 ^ lastDigit q := by
    rw [sub_mul, div_mul_cancel₀ _ hulp.ne', round]
  have hlo : (2 : ℚ) ^ Int.log 2 q ≤ q := by
    exact_mod_cast Int.zpow_log_le_self (b := 2) one_lt_two hq
  have hdigit : (2 : ℚ) ^ lastDigit q * 2 ^ 23 ≤ q := by
    have h := mul_ulp q 0
    rw [add_zero, add_zero] at h
    rw [mul_comm, show (2 : ℚ) ^ 23 = 2 ^ (23 : ℤ) by norm_num, h]
    exact hlo
  rw [hround, abs_mul, abs_of_pos hulp]
  have hhalf := mul_le_mul_of_nonneg_right (abs_roundEven_sub (q / 2 ^ lastDigit q)) hulp.le
  refine hhalf.trans ?_
  rw [le_div_iff₀ (by norm_num)]
  linarith

/-! ## Quotients -/

/-- `ceil (a / (float) b)` -/
def ceilDiv (a b : ℕ) : ℕ := ⌈round (round a / round b)⌉₊

theorem ceilDiv_pos {a b : ℕ} (ha : 0 < a) (hb : 0 < b) : 0 < ceilDiv a b := by
  refine Nat.ceil_pos.mpr (round_pos (div_pos (round_pos ?_) (round_pos ?_)))
  · exact_mod_cast ha
  · exact_mod_cast hb

theorem ceilDiv_of_le {a b : ℕ} (ha : 0 < a) (h : a ≤ b) : ceilDiv a b = 1 := by
  have hb : 0 < b := ha.trans_le h
  have hapos : (0 : ℚ) < a := by exact_mod_cast ha
  have hbpos : (0 : ℚ) < round b := round_pos (by exact_mod_cast hb)
  have hle : round (a : ℚ) / round (b : ℚ) ≤ 1 :=
    (div_le_one hbpos).mpr (round_mono hapos (by exact_mod_cast h))
  have hone : round 1 = 1 := by exact_mod_cast round_natCast (n := 1) (by norm_num)
  have hceil : ceilDiv a b ≤ 1 := by
    refine Nat.ceil_le.mpr ?_
    have hr := round_mono (div_pos (round_pos hapos) hbpos) hle
    rw [hone] at hr
    exact_mod_cast hr
  exact le_antisymm hceil (ceilDiv_pos ha hb)

theorem ceilDiv_zero (b : ℕ) : ceilDiv 0 b = 0 := by
  have hzero : round 0 = 0 := by exact_mod_cast round_natCast (n := 0) (by norm_num)
  rw [ceilDiv, Nat.cast_zero, hzero, zero_div, hzero, Nat.ceil_zero]

/-- integers of at most 24 digits are divided exactly, as far as `ceil` can tell -/
theorem ceilDiv_eq {a b : ℕ} (ha : a < 2 ^ 24) (hb' : b < 2 ^ 24) (hpos : 0 < b) :
    ceilDiv a b = ⌈(a : ℚ) / b⌉₊ := by
  rcases Nat.eq_zero_or_pos a with rfl | hapos
  · rw [ceilDiv_zero, Nat.cast_zero, zero_div, Nat.ceil_zero]
  · have hb : (0 : ℚ) < b := by exact_mod_cast hpos
    have hq : (0 : ℚ) < a / b := div_pos (by exact_mod_cast hapos) hb
    rw [ceilDiv, round_natCast ha, round_natCast hb']
    have hkpos : ⌈(a : ℚ) / b⌉₊ ≠ 0 := (Nat.ceil_pos.mpr hq).ne'
    have hkle : ⌈(a : ℚ) / b⌉₊ ≤ a := by
      refine Nat.ceil_le.mpr (div_le_self (by exact_mod_cast hapos.le) ?_)
      exact_mod_cast hpos
    obtain ⟨hlt, hle⟩ := (Nat.ceil_eq_iff hkpos).mp rfl
    refine (Nat.ceil_eq_iff hkpos).mpr ⟨?_, ?_⟩
    · -- the quotient is at least one `b`-th above the integer below it
      have hnat : (⌈(a : ℚ) / b⌉₊ - 1) * b < a := by
        rw [lt_div_iff₀ hb] at hlt
        exact_mod_cast hlt
      have hgap : ((⌈(a : ℚ) / b⌉₊ - 1 : ℕ) : ℚ) + 1 / b ≤ a / b := by
        rw [add_div' _ _ _ hb.ne', div_le_div_iff_of_pos_right hb]
        exact_mod_cast Nat.succ_le_of_lt hnat
      have hoff := (abs_le.mp (abs_round_sub hq)).1
      have hsmall : (a : ℚ) / b / 2 ^ 24 < 1 / b := by
        rw [div_right_comm, div_lt_div_iff_of_pos_right hb, div_lt_one (by norm_num)]
        exact_mod_cast ha
      linarith
    · have hk := round_mono hq hle
      rw [round_natCast (lt_of_le_of_lt hkle ha)] at hk
      exact hk

end Binary32
