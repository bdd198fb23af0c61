import Mathlib.Data.Int.Log
import Mathlib.Data.Rat.Floor
import Mathlib.Tactic.Linarith
import Mathlib.Tactic.NormNum
import Mathlib.Tactic.Positivity

/-!
# Support — Binary64

Rounding to the nearest binary floating-point number of 53 bits, ties to even.  There is no largest
number here: what is beyond a format is left to the operations that are built on it.

* `Representable`: the numbers of the format.
* `rounded_nearest`: no number of the format is nearer than the rounded one.
* `le_rounded`, `rounded_le`: rounding does not pass a number of the format.
* `le_rounded_add`: what is taken from a number of the format counts at most twice.
-/

namespace DocSearch.Binary64

/-- A number of the format: 53 bits, and no bit below the last one of the least number. -/
def Representable (q : ℚ) : Prop := ∃ m e : ℤ, |m| ≤ 2 ^ 53 ∧ -1074 ≤ e ∧ q = m * 2 ^ e

/-- The nearest integer; ties go to the even one. -/
def nearest (q : ℚ) : ℤ :=
  if q - ⌊q⌋ < 1 / 2 ∨ (q - ⌊q⌋ = 1 / 2 ∧ ⌊q⌋ % 2 = 0) then ⌊q⌋ else ⌊q⌋ + 1

/-- The exponent of the last bit that is kept of a number. -/
def lastBit (q : ℚ) : ℤ := max (-1074) (Int.log 2 |q| - 52)

/-- The nearest number of the format. -/
def rounded (q : ℚ) : ℚ := nearest (q / 2 ^ lastBit q) * 2 ^ lastBit q

variable {a b q r x y z : ℚ}

/-! ### The nearest integer -/

/-- What is not farther than a point does not pass it. -/
theorem between_of_near (h : |a - q| ≤ |b - q|) : (b ≤ q → b ≤ a) ∧ (q ≤ b → a ≤ b) := by
  obtain ⟨hlower, hupper⟩ := abs_le.mp h
  constructor
  · intro hb
    rw [abs_of_nonpos (sub_nonpos.mpr hb)] at hlower
    linarith
  · intro hb
    rw [abs_of_nonneg (sub_nonneg.mpr hb)] at hupper
    linarith

theorem nearest_le (q : ℚ) (n : ℤ) : |nearest q - q| ≤ |n - q| := by
  have hdown : (⌊q⌋ : ℚ) ≤ q := Int.floor_le q
  have hup : q < ⌊q⌋ + 1 := Int.lt_floor_add_one q
  have habove : (n : ℚ) - q ≤ |n - q| := le_abs_self _
  have hbelow : q - n ≤ |n - q| := by
    rw [abs_sub_comm]
    exact le_abs_self _
  unfold nearest
  split
  · rename_i h
    have hhalf : q - ⌊q⌋ ≤ 1 / 2 := h.elim le_of_lt fun h => h.1.le
    rw [abs_sub_comm, abs_of_nonneg (sub_nonneg.mpr hdown)]
    rcases le_or_gt n ⌊q⌋ with hn | hn
    · have hn : (n : ℚ) ≤ ⌊q⌋ := by exact_mod_cast hn
      linarith
    · have hn : (⌊q⌋ : ℚ) + 1 ≤ n := by exact_mod_cast hn
      linarith
  · rename_i h
    have hhalf : 1 / 2 ≤ q - ⌊q⌋ := not_lt.mp fun hlt => h (.inl hlt)
    rw [Int.cast_add, Int.cast_one, abs_of_pos (sub_pos.mpr hup)]
    rcases le_or_gt n ⌊q⌋ with hn | hn
    · have hn : (n : ℚ) ≤ ⌊q⌋ := by exact_mod_cast hn
      linarith
    · have hn : (⌊q⌋ : ℚ) + 1 ≤ n := by exact_mod_cast hn
      linarith

theorem abs_nearest_le {n : ℤ} (h : |q| ≤ n) : |nearest q| ≤ n := by
  obtain ⟨hlower, hupper⟩ := abs_le.mp h
  refine abs_le.mpr ⟨?_, ?_⟩
  · have hle := (between_of_near (nearest_le q (-n))).1 (by rw [Int.cast_neg]; exact hlower)
    exact_mod_cast hle
  · have hle := (between_of_near (nearest_le q n)).2 hupper
    exact_mod_cast hle

/-! ### The nearest number of the format -/

theorem two_zpow_pos (e : ℤ) : (0 : ℚ) < 2 ^ e := zpow_pos two_pos e

/-- A larger power is a multiple of a smaller one. -/
theorem two_zpow_eq_mul {e k : ℤ} (h : e ≤ k) :
    (2 : ℚ) ^ k = ((2 ^ (k - e).toNat : ℤ) : ℚ) * 2 ^ e := by
  rw [Int.cast_pow, Int.cast_ofNat, ← zpow_natCast, ← zpow_add₀ two_ne_zero,
    Int.toNat_of_nonneg (sub_nonneg.mpr h), sub_add_cancel]

/-- No multiple of the last bit is nearer. -/
theorem rounded_multiple (q : ℚ) (n : ℤ) : |rounded q - q| ≤ |n * 2 ^ lastBit q - q| := by
  have hu := two_zpow_pos (lastBit q)
  have hscale : ∀ x : ℚ, |x * 2 ^ lastBit q - q| = |x - q / 2 ^ lastBit q| * 2 ^ lastBit q := by
    intro x
    have hx : x * 2 ^ lastBit q - q = (x - q / 2 ^ lastBit q) * 2 ^ lastBit q := by
      rw [sub_mul, div_mul_cancel₀ q hu.ne']
    rw [hx, abs_mul, abs_of_pos hu]
  rw [rounded, hscale, hscale]
  exact mul_le_mul_of_nonneg_right (nearest_le _ n) hu.le

@[simp] theorem rounded_zero : rounded 0 = 0 := by
  have hzero : nearest 0 = 0 := by
    rw [nearest, Int.floor_zero]
    norm_num
  rw [rounded, zero_div, hzero, Int.cast_zero, zero_mul]

/-- The numbers of the format that a number is above are no finer than its last bit, or not larger
than its leading one. -/
theorem le_leading {m k : ℤ} (hm : |m| ≤ 2 ^ 53) (hk : k < lastBit q) (hleast : -1074 ≤ k) :
    lastBit q = Int.log 2 |q| - 52 ∧ |(m : ℚ) * 2 ^ k| ≤ 2 ^ Int.log 2 |q| := by
  have hlast : lastBit q = Int.log 2 |q| - 52 := by
    rw [lastBit] at hk ⊢
    omega
  refine ⟨hlast, ?_⟩
  have hk : k ≤ Int.log 2 |q| - 53 := by omega
  have hm : |(m : ℚ)| ≤ 2 ^ (53 : ℤ) := by exact_mod_cast hm
  calc |(m : ℚ) * 2 ^ k| = |(m : ℚ)| * 2 ^ k := by rw [abs_mul, abs_of_pos (two_zpow_pos k)]
    _ ≤ 2 ^ (53 : ℤ) * 2 ^ (Int.log 2 |q| - 53) :=
        mul_le_mul hm (zpow_le_zpow_right₀ one_le_two hk) (two_zpow_pos k).le (two_zpow_pos _).le
    _ = 2 ^ Int.log 2 |q| := by rw [← zpow_add₀ two_ne_zero, add_sub_cancel]

/-- **No number of the format is nearer.** -/
theorem rounded_nearest (hr : Representable r) : |rounded q - q| ≤ |r - q| := by
  obtain ⟨m, k, hm, hk, rfl⟩ := hr
  rcases le_or_gt (lastBit q) k with hle | hlt
  · -- a multiple of the last bit
    rw [two_zpow_eq_mul hle, ← mul_assoc, ← Int.cast_mul]
    exact rounded_multiple q _
  · obtain ⟨hlast, hsmall⟩ := le_leading hm hlt hk
    rcases eq_or_ne q 0 with rfl | hq
    · rw [rounded_zero, sub_zero, abs_zero]
      exact abs_nonneg _
    -- the leading bit of `q` lies between the two
    have hlead : (2 : ℚ) ^ Int.log 2 |q| ≤ |q| := by
      exact_mod_cast Int.zpow_log_le_self (R := ℚ) one_lt_two (abs_pos.mpr hq)
    have hpow : (2 : ℚ) ^ Int.log 2 |q| = ((2 ^ 52 : ℤ) : ℚ) * 2 ^ lastBit q := by
      rw [hlast, Int.cast_pow, Int.cast_ofNat, ← zpow_natCast, ← zpow_add₀ two_ne_zero]
      norm_num
    obtain ⟨hlower, hupper⟩ := abs_le.mp hsmall
    have habove : (m : ℚ) * 2 ^ k - q ≤ |(m : ℚ) * 2 ^ k - q| := le_abs_self _
    have hbelow : q - (m : ℚ) * 2 ^ k ≤ |(m : ℚ) * 2 ^ k - q| := by
      rw [abs_sub_comm]
      exact le_abs_self _
    rcases lt_or_gt_of_ne hq with hneg | hpos
    · have h := rounded_multiple q (-2 ^ 52)
      rw [Int.cast_neg, neg_mul, ← hpow] at h
      rw [abs_of_neg hneg] at hlead h hlower hupper
      rw [abs_of_nonneg (by linarith : 0 ≤ -(2 : ℚ) ^ Int.log 2 (-q) - q)] at h
      linarith
    · have h := rounded_multiple q (2 ^ 52)
      rw [← hpow] at h
      rw [abs_of_pos hpos] at hlead h hlower hupper
      rw [abs_of_nonpos (by linarith : (2 : ℚ) ^ Int.log 2 q - q ≤ 0)] at h
      linarith

theorem representable_rounded (q : ℚ) : Representable (rounded q) := by
  refine ⟨nearest (q / 2 ^ lastBit q), lastBit q, abs_nearest_le ?_, le_max_left _ _, rfl⟩
  have hu := two_zpow_pos (lastBit q)
  have hlast : Int.log 2 |q| + 1 ≤ 53 + lastBit q := by
    rw [lastBit]
    omega
  have hlt : |q| < 2 ^ (Int.log 2 |q| + 1) := by
    exact_mod_cast Int.lt_zpow_succ_log_self (R := ℚ) one_lt_two |q|
  rw [abs_div, abs_of_pos hu, div_le_iff₀ hu]
  calc |q| ≤ 2 ^ (Int.log 2 |q| + 1) := hlt.le
    _ ≤ 2 ^ (53 + lastBit q) := zpow_le_zpow_right₀ one_le_two hlast
    _ = ((2 ^ 53 : ℤ) : ℚ) * 2 ^ lastBit q := by
        rw [zpow_add₀ two_ne_zero]
        norm_num

/-! ### Rounding and order -/

theorem le_rounded (hr : Representable r) (h : r ≤ q) : r ≤ rounded q :=
  (between_of_near (rounded_nearest hr)).1 h

theorem rounded_le (hr : Representable r) (h : q ≤ r) : rounded q ≤ r :=
  (between_of_near (rounded_nearest hr)).2 h

theorem rounded_eq (h : Representable q) : rounded q = q :=
  le_antisymm (rounded_le h le_rfl) (le_rounded h le_rfl)

theorem representable_zero : Representable 0 := ⟨0, 0, by norm_num, by norm_num, by norm_num⟩

theorem rounded_le_two_mul (h : 0 ≤ q) : rounded q ≤ 2 * q := by
  obtain ⟨-, hupper⟩ := abs_le.mp (rounded_nearest representable_zero : |rounded q - q| ≤ |0 - q|)
  rw [zero_sub, abs_neg, abs_of_nonneg h] at hupper
  linarith

/-- **A difference that is rounded** is off by no more than what was taken away. -/
theorem le_rounded_add (hx : Representable x) (hy : y ≤ 0) (hz : x + y ≤ z) :
    x + 2 * y ≤ rounded z := by
  rcases le_or_gt x z with hle | hlt
  · have h := le_rounded hx hle
    linarith
  · obtain ⟨hlower, -⟩ := abs_le.mp ((rounded_nearest hx : |rounded z - z| ≤ |x - z|))
    rw [abs_of_pos (sub_pos.mpr hlt)] at hlower
    linarith

theorem representable_intCast {n : ℤ} (hn : |n| ≤ 2 ^ 53) : Representable n :=
  ⟨n, 0, hn, by norm_num, by rw [zpow_zero, mul_one]⟩

theorem representable_zpow {e : ℤ} (he : -1074 ≤ e) : Representable (2 ^ e) :=
  ⟨1, e, by norm_num, he, by rw [Int.cast_one, one_mul]⟩

theorem Representable.neg (h : Representable q) : Representable (-q) := by
  obtain ⟨m, e, hm, he, rfl⟩ := h
  exact ⟨-m, e, by rwa [abs_neg], he, by rw [Int.cast_neg, neg_mul]⟩

/-- Rounding keeps a bound that is a power of two. -/
theorem abs_rounded_le {e : ℤ} (he : -1074 ≤ e) (h : |q| ≤ 2 ^ e) : |rounded q| ≤ 2 ^ e := by
  obtain ⟨hlower, hupper⟩ := abs_le.mp h
  exact abs_le.mpr ⟨le_rounded (representable_zpow he).neg hlower,
    rounded_le (representable_zpow he) hupper⟩

theorem rounded_nonneg (h : 0 ≤ q) : 0 ≤ rounded q := le_rounded representable_zero h

theorem rounded_nonpos (h : q ≤ 0) : rounded q ≤ 0 := rounded_le representable_zero h

theorem one_le_rounded (h : 1 ≤ q) : 1 ≤ rounded q :=
  le_rounded (representable_zpow (e := 0) (by norm_num)) h

end DocSearch.Binary64
