import DocSearch.Core.Python
import DocSearch.Support.Binary64

/-!
# Core — Floats

The arithmetic of the `float` type: the exact result, rounded, or an infinity when it is beyond the
largest float.  The zeros are not told apart by their sign.

* `ofExact_eq`: a result that is a float is not rounded.
* `rounded_lt_overflow`: what is rounded to a float is within the format.
-/

namespace DocSearch

open Binary64

deriving instance DecidableEq for PyFloat

/-- A `ZeroDivisionError`. -/
inductive ZeroDivision where
  | raised
  deriving DecidableEq

/-- What `int` raises on a float that is not finite. -/
inductive IntError where
  | overflowError
  | valueError
  deriving DecidableEq

/-- `int(x)`. -/
def pyInt (q : ℚ) : ℤ := q.num.tdiv q.den

namespace PyFloat

/-- `int(x)`. -/
def toInt : PyFloat → Except IntError ℤ
  | .finite q => .ok (pyInt q)
  | .inf _ => .error .overflowError
  | .nan => .error .valueError

/-- The least number that is not rounded to a finite float. -/
def overflow : ℚ := 2 ^ 1024 - 2 ^ 970

/-- The float of an exact result. -/
def ofExact (q : ℚ) : PyFloat :=
  if |q| < overflow then .finite (rounded q) else .inf (decide (q < 0))

/-- `float(n)`. -/
def ofInt (n : ℤ) : Except IntError PyFloat :=
  if |(n : ℚ)| < overflow then .ok (.finite (rounded n)) else .error .overflowError

def neg : PyFloat → PyFloat
  | .finite a => .finite (-a)
  | .inf s => .inf (!s)
  | .nan => .nan

/-- `x + y`. -/
def add : PyFloat → PyFloat → PyFloat
  | .finite a, .finite b => ofExact (a + b)
  | .inf s, .finite _ | .finite _, .inf s => .inf s
  | .inf s, .inf t => if s = t then .inf s else .nan
  | .nan, _ | _, .nan => .nan

/-- `x - y`. -/
def sub (x y : PyFloat) : PyFloat := x.add y.neg

/-- `x * y`. -/
def mul : PyFloat → PyFloat → PyFloat
  | .finite a, .finite b => ofExact (a * b)
  | .inf s, .finite a | .finite a, .inf s => if a = 0 then .nan else .inf (s ^^ decide (a < 0))
  | .inf s, .inf t => .inf (s ^^ t)
  | .nan, _ | _, .nan => .nan

/-- `x / y`. -/
def div : PyFloat → PyFloat → Except ZeroDivision PyFloat
  | x, .finite b =>
      if b = 0 then .error .raised
      else match x with
        | .finite a => .ok (ofExact (a / b))
        | .inf s => .ok (.inf (s ^^ decide (b < 0)))
        | .nan => .ok .nan
  | .finite _, .inf _ => .ok (.finite 0)
  | .inf _, .inf _ | .nan, .inf _ | _, .nan => .ok .nan

/-- `x < y`. -/
def lt : PyFloat → PyFloat → Bool
  | .finite a, .finite b => decide (a < b)
  | .finite _, .inf s => !s
  | .inf s, .finite _ => s
  | .inf s, .inf t => s && !t
  | .nan, _ | _, .nan => false

/-- `x <= y`. -/
def le : PyFloat → PyFloat → Bool
  | .finite a, .finite b => decide (a ≤ b)
  | .finite _, .inf s => !s
  | .inf s, .finite _ => s
  | .inf s, .inf t => s || !t
  | .nan, _ | _, .nan => false

/-- `min(x, y)`: the second when it is less. -/
def min (x y : PyFloat) : PyFloat := if y.lt x then y else x

/-- `max(x, y)`: the second when it is greater. -/
def max (x y : PyFloat) : PyFloat := if x.lt y then y else x

/-- A float that is at least 0. -/
def Nonneg : PyFloat → Prop
  | .finite q => 0 ≤ q
  | .inf s => s = false
  | .nan => False

variable {q : ℚ}

/-! ### Within the format -/

theorem overflow_eq : overflow = 2 ^ (1024 : ℤ) - 2 ^ (970 : ℤ) := by
  rw [overflow, zpow_ofNat, zpow_ofNat]

/-- The next power of two. -/
theorem two_zpow_succ (e : ℤ) : (2 : ℚ) ^ (e + 1) = 2 * 2 ^ e := by
  rw [zpow_add_one₀ two_ne_zero, mul_comm]

theorem zpow_lt_overflow {e : ℤ} (he : e ≤ 1023) : (2 : ℚ) ^ e < overflow := by
  have hle : (2 : ℚ) ^ e ≤ 2 ^ (1023 : ℤ) := zpow_le_zpow_right₀ one_le_two he
  have hless : (2 : ℚ) ^ (970 : ℤ) < 2 ^ (1023 : ℤ) := zpow_lt_zpow_right₀ one_lt_two (by norm_num)
  have htop : (2 : ℚ) ^ (1024 : ℤ) = 2 * 2 ^ (1023 : ℤ) := two_zpow_succ 1023
  rw [overflow_eq, htop]
  generalize (2 : ℚ) ^ (1023 : ℤ) = half at *
  generalize (2 : ℚ) ^ (970 : ℤ) = bit at *
  linarith

theorem ofExact_of_lt (h : |q| < overflow) : ofExact q = .finite (rounded q) := if_pos h

/-- A result that is a float is not rounded. -/
theorem ofExact_eq (hq : Representable q) (h : |q| < overflow) : ofExact q = .finite q := by
  rw [ofExact_of_lt h, rounded_eq hq]

/-- A result below a power of two. -/
theorem ofExact_of_le {e : ℤ} (he : e ≤ 1023) (h : |q| ≤ 2 ^ e) : ofExact q = .finite (rounded q) :=
  ofExact_of_lt (h.trans_lt (zpow_lt_overflow he))

/-! ### Operations on finite floats -/

theorem add_finite (a b : ℚ) : add (.finite a) (.finite b) = ofExact (a + b) := rfl

theorem sub_finite (a b : ℚ) : sub (.finite a) (.finite b) = ofExact (a - b) := by
  rw [sub_eq_add_neg]
  rfl

theorem mul_finite (a b : ℚ) : mul (.finite a) (.finite b) = ofExact (a * b) := rfl

theorem mul_inf (a : ℚ) (s : Bool) : mul (.finite a) (.inf s) =
    if a = 0 then .nan else .inf (s ^^ decide (a < 0)) := rfl

theorem div_zero (x : PyFloat) : div x (.finite 0) = .error .raised := by
  cases x <;> rfl

theorem div_finite (a : ℚ) {b : ℚ} (hb : b ≠ 0) :
    div (.finite a) (.finite b) = .ok (ofExact (a / b)) := if_neg hb

theorem lt_finite (a b : ℚ) : lt (.finite a) (.finite b) = decide (a < b) := rfl

theorem le_finite {a b : ℚ} : le (.finite a) (.finite b) = true ↔ a ≤ b := decide_eq_true_iff

theorem min_finite (a b : ℚ) : PyFloat.min (.finite a) (.finite b) = .finite (a ⊓ b) := by
  rw [PyFloat.min, lt_finite]
  split
  · rename_i h
    rw [inf_eq_right.mpr (of_decide_eq_true h).le]
  · rename_i h
    rw [inf_eq_left.mpr (not_lt.mp fun hlt => h (decide_eq_true hlt))]

theorem max_finite (a b : ℚ) : PyFloat.max (.finite a) (.finite b) = .finite (a ⊔ b) := by
  rw [PyFloat.max, lt_finite]
  split
  · rename_i h
    rw [sup_eq_right.mpr (of_decide_eq_true h).le]
  · rename_i h
    rw [sup_eq_left.mpr (not_lt.mp fun hlt => h (decide_eq_true hlt))]

theorem ofExact_zero : ofExact 0 = .finite 0 := by
  have h : |(0 : ℚ)| ≤ 2 ^ (0 : ℤ) := by norm_num
  rw [ofExact_of_le (by norm_num) h, rounded_zero]

/-- The largest float has 53 bits. -/
theorem largest_eq :
    (2 : ℚ) ^ (1024 : ℤ) - 2 ^ (971 : ℤ) = ((2 ^ 53 - 1 : ℤ) : ℚ) * 2 ^ (971 : ℤ) := by
  have htop : (2 : ℚ) ^ (1024 : ℤ) = 2 ^ 53 * 2 ^ (971 : ℤ) := by
    rw [← zpow_natCast, ← zpow_add₀ two_ne_zero]
    rfl
  have hbits : ((2 ^ 53 - 1 : ℤ) : ℚ) = 2 ^ 53 - 1 := by norm_num
  rw [htop, hbits, sub_mul, one_mul]

/-- Between the largest float and the next power of two there is no number of 53 bits. -/
theorem le_largest {r : ℚ} (hr : Representable r) (h : r < 2 ^ (1024 : ℤ)) :
    r ≤ 2 ^ (1024 : ℤ) - 2 ^ (971 : ℤ) := by
  obtain ⟨m, e, hm, -, rfl⟩ := hr
  have hm' : (m : ℚ) ≤ 2 ^ (53 : ℤ) := by exact_mod_cast (abs_le.mp hm).2
  rcases le_or_gt 971 e with hle | hlt
  · -- a multiple of the last bit
    have htop : (2 : ℚ) ^ (1024 : ℤ) = ((2 ^ 53 : ℤ) : ℚ) * 2 ^ (971 : ℤ) := by
      rw [Int.cast_pow, Int.cast_ofNat, ← zpow_natCast, ← zpow_add₀ two_ne_zero]
      rfl
    have hpos := two_zpow_pos 971
    rw [two_zpow_eq_mul hle, ← mul_assoc, ← Int.cast_mul] at h ⊢
    rw [htop] at h ⊢
    have hlt : m * 2 ^ (e - 971).toNat < 2 ^ 53 := by
      exact_mod_cast lt_of_mul_lt_mul_right h hpos.le
    have hle : ((m * 2 ^ (e - 971).toNat : ℤ) : ℚ) ≤ ((2 ^ 53 : ℤ) : ℚ) - 1 := by
      have := Int.le_sub_one_of_lt hlt
      exact_mod_cast this
    calc _ ≤ (((2 ^ 53 : ℤ) : ℚ) - 1) * 2 ^ (971 : ℤ) := mul_le_mul_of_nonneg_right hle hpos.le
      _ = _ := by rw [sub_mul, one_mul]
  · -- at most half of it
    have hhalf : (m : ℚ) * 2 ^ e ≤ 2 ^ (53 : ℤ) * 2 ^ (970 : ℤ) :=
      mul_le_mul hm' (zpow_le_zpow_right₀ one_le_two (by omega)) (two_zpow_pos e).le
        (two_zpow_pos _).le
    have hless : (2 : ℚ) ^ (971 : ℤ) ≤ 2 ^ (1023 : ℤ) := zpow_le_zpow_right₀ one_le_two (by norm_num)
    have htop : (2 : ℚ) ^ (1024 : ℤ) = 2 * 2 ^ (1023 : ℤ) := two_zpow_succ 1023
    rw [← zpow_add₀ two_ne_zero] at hhalf
    have hhalf : (m : ℚ) * 2 ^ e ≤ 2 ^ (1023 : ℤ) := hhalf
    rw [htop]
    generalize (2 : ℚ) ^ (1023 : ℤ) = half at *
    generalize (2 : ℚ) ^ (971 : ℤ) = bit at *
    linarith

/-- A finite float is below the overflow. -/
theorem rounded_lt_overflow (h : q < overflow) : rounded q < overflow := by
  have hlargest : Representable (2 ^ (1024 : ℤ) - 2 ^ (971 : ℤ)) :=
    ⟨2 ^ 53 - 1, 971, by norm_num, by norm_num, largest_eq⟩
  have hhalf : (2 : ℚ) ^ (971 : ℤ) = 2 * 2 ^ (970 : ℤ) := two_zpow_succ 970
  have hpos := two_zpow_pos 970
  have htop : rounded q < 2 ^ (1024 : ℤ) →
      rounded q ≤ 2 ^ (1024 : ℤ) - 2 ^ (971 : ℤ) := le_largest (representable_rounded q)
  have hnear := rounded_nearest hlargest (q := q)
  have hpass := fun hle => rounded_le hlargest hle (q := q)
  rw [overflow_eq] at h ⊢
  generalize (2 : ℚ) ^ (1024 : ℤ) = top at *
  generalize (2 : ℚ) ^ (971 : ℤ) = bit at *
  generalize (2 : ℚ) ^ (970 : ℤ) = half at *
  rcases le_or_gt q (top - bit) with hle | hlt
  · have := hpass hle
    linarith
  · -- the largest float is nearer than the next power of two
    obtain ⟨-, hupper⟩ := abs_le.mp hnear
    rw [abs_of_neg (sub_neg.mpr hlt)] at hupper
    have := htop (by linarith)
    linarith

end PyFloat

/-- Numbers that need no rounding. -/
example : PyFloat.add (.finite 5) (.finite (-1)) = .finite 4 ∧
    PyFloat.div (.finite 1) (.finite 0) = .error .raised := by decide +kernel

end DocSearch
