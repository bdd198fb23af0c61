import DocSearch.Core.Floats
import DocSearch.Services.RateLimiter

/-!
# Services — FloatLimiter

The limiter in the arithmetic of floats: every operation of `check` and of `_check_local` is rounded,
what is beyond the largest float is an infinity, and `int` raises on one.

* `checkLocal_exact`: where nothing is rounded this is the limiter with exact numbers.
* `FloatChecks.kept`: what a bucket holds is a float, not too far below zero, or the infinity that an
  infinite capacity has filled it to.
* `check_decided`: a check for a positive quota, with a finite capacity, gives a decision.
* `check_unbounded`, `check_spent`: the checks that do not.
-/

namespace DocSearch

open CacheKeys TokenBucket Binary64

/-- What a check raises. -/
inductive ArithmeticError where
  | zeroDivision (e : ZeroDivision)
  | int (e : IntError)
  deriving DecidableEq

/-- `_LocalBucket`. -/
structure FloatBucket where
  tokens : PyFloat
  ts : ℚ

/-- The limiter, with floats for its numbers. -/
structure FloatLimiter where
  burstRatio : PyFloat
  localBuckets : Dict Str FloatBucket

namespace FloatLimiter

def new (burstRatio : PyFloat) : FloatLimiter := ⟨burstRatio, .empty⟩

/-- `_capacity`. -/
def capacity (rl : FloatLimiter) (limitPerMinute : ℤ) : Except IntError PyFloat :=
  (PyFloat.ofInt limitPerMinute).map fun limit =>
    PyFloat.max (.finite 5) (limit.mul rl.burstRatio)

/-- `limit_per_minute / 60.0`. -/
def refillRate (limitPerMinute : ℤ) : Except ArithmeticError PyFloat :=
  match PyFloat.ofInt limitPerMinute with
  | .error e => .error (.int e)
  | .ok limit => (limit.div (.finite 60)).mapError .zeroDivision

def setBucket (rl : FloatLimiter) (key : Str) (b : FloatBucket) : FloatLimiter :=
  { rl with localBuckets := rl.localBuckets.set key b }

/-- The tokens of a bucket at a reading of the clock. -/
def refilled (bucket : FloatBucket) (capacity refillRate : PyFloat) (now : ℚ) : PyFloat :=
  let elapsed := PyFloat.max (.finite 0) ((PyFloat.finite now).sub (.finite bucket.ts))
  PyFloat.min capacity (bucket.tokens.add (elapsed.mul refillRate))

/-- `_check_local`.  When the division raises, a bucket that is in the dict has been refilled; when
`int` does, the bucket has been stored. -/
def checkLocal (rl : FloatLimiter) (key : Str) (capacity refillRate : PyFloat) (now : ℚ) :
    Except ArithmeticError RateLimitDecision × FloatLimiter :=
  let tokens := refilled ((rl.localBuckets.get? key).getD ⟨capacity, now⟩) capacity refillRate now
  if PyFloat.le (.finite 1) tokens then
    let tokens := tokens.sub (.finite 1)
    ((tokens.toInt.mapError .int).map fun remaining => ⟨true, 0, remaining, .finite 0, true⟩,
      rl.setBucket key ⟨tokens, now⟩)
  else
    match ((PyFloat.finite 1).sub tokens).div refillRate with
    | .error e =>
        (.error (.zeroDivision e),
          if (rl.localBuckets.get? key).isSome then rl.setBucket key ⟨tokens, now⟩ else rl)
    | .ok retryAfter =>
        ((tokens.toInt.mapError .int).map fun remaining => ⟨false, 0, remaining, retryAfter, true⟩,
          rl.setBucket key ⟨tokens, now⟩)

/-- `check`: `reply` is what the script returned, `none` when it raised or there is no Redis, and
`now` the reading of the monotonic clock, which is read in that case only. -/
def check (rl : FloatLimiter) (tenantId bucket : Str) (limitPerMinute : ℤ)
    (reply : Option ScriptReply) (now : ℚ) :
    Except ArithmeticError RateLimitDecision × FloatLimiter :=
  match rl.capacity limitPerMinute, refillRate limitPerMinute with
  | .error e, _ => (.error (.int e), rl)
  | .ok _, .error e => (.error e, rl)
  | .ok capacity, .ok refillRate =>
      match reply with
      | some reply => (.ok (RateLimiter.ofReply limitPerMinute reply), rl)
      | none =>
          let (decision, rl') := rl.checkLocal (rateLimitKey tenantId bucket) capacity refillRate now
          (decision.map fun d => { d with limitPerMinute := limitPerMinute }, rl')

end FloatLimiter

/-! ### Runs of checks -/

/-- A call of `check`, and what came of it. -/
structure FloatCall where
  tenantId : Str
  bucket : Str
  limitPerMinute : ℤ
  reply : Option ScriptReply
  now : ℚ
  decision : Except ArithmeticError RateLimitDecision

/-- The process decided by itself. -/
def FloatCall.isLocal (c : FloatCall) : Bool := c.reply.isNone

/-- The integers a column of the table holds. -/
def StoredQuota (limit : ℤ) : Prop := |limit| ≤ 2 ^ 63

instance (limit : ℤ) : Decidable (StoredQuota limit) := inferInstanceAs (Decidable (_ ≤ _))

/-- The readings of a monotonic clock, which counts nanoseconds in 63 bits, in seconds. -/
def ClockReading (now : ℚ) : Prop := 0 ≤ now ∧ now ≤ 2 ^ 63 / 10 ^ 9

theorem ClockReading.le {now : ℚ} (h : ClockReading now) : now ≤ 2 ^ (34 : ℤ) := by
  refine h.2.trans ?_
  norm_num

/-- The calls of a process, the newest first, its monotonic clock never going back, and the limiter
they leave. -/
inductive FloatChecks (burstRatio : PyFloat) : List FloatCall → FloatLimiter → Prop where
  | new : FloatChecks burstRatio [] (.new burstRatio)
  | check {past rl} (h : FloatChecks burstRatio past rl) (tenantId bucket : Str)
      (limitPerMinute : ℤ) (reply : Option ScriptReply) (now : ℚ)
      (hlimit : StoredQuota limitPerMinute) (hclock : reply = none → ClockReading now)
      (hnow : reply = none → ∀ c ∈ past, c.isLocal = true → c.now ≤ now) :
      FloatChecks burstRatio
        (⟨tenantId, bucket, limitPerMinute, reply, now,
          (rl.check tenantId bucket limitPerMinute reply now).1⟩ :: past)
        (rl.check tenantId bucket limitPerMinute reply now).2

/-! ### The numbers of a check -/

namespace FloatLimiter

variable {rl : FloatLimiter} {limit : ℤ} {capacity tokens : PyFloat} {ts now r : ℚ}

theorem ofInt_stored (h : StoredQuota limit) :
    PyFloat.ofInt limit = .ok (.finite (rounded limit)) ∧ |rounded (limit : ℚ)| ≤ 2 ^ (63 : ℤ) := by
  have hle : |(limit : ℚ)| ≤ 2 ^ (63 : ℤ) := by
    have h' : ((|limit| : ℤ) : ℚ) ≤ ((2 ^ 63 : ℤ) : ℚ) := Int.cast_le.mpr h
    exact_mod_cast h'
  exact ⟨if_pos (hle.trans_lt (PyFloat.zpow_lt_overflow (by norm_num))),
    abs_rounded_le (by norm_num) hle⟩

/-- The rate is a float, and at least one token in 64 seconds when the quota is positive. -/
theorem refillRate_stored (h : StoredQuota limit) :
    ∃ r, refillRate limit = .ok (.finite r) ∧ |r| ≤ 2 ^ (58 : ℤ) ∧
      (1 ≤ limit → 2 ^ (-6 : ℤ) ≤ r) ∧ (limit ≤ 0 → r ≤ 0) := by
  obtain ⟨hint, hle⟩ := ofInt_stored h
  have hquot : |rounded (limit : ℚ) / 60| ≤ 2 ^ (58 : ℤ) := by
    rw [abs_div, abs_of_pos (by norm_num : (0 : ℚ) < 60), div_le_iff₀ (by norm_num)]
    refine hle.trans ?_
    norm_num
  refine ⟨rounded (rounded limit / 60), ?_, abs_rounded_le (by norm_num) hquot,
    fun hl => ?_, fun hl => ?_⟩
  · unfold refillRate
    rw [hint]
    dsimp only
    rw [PyFloat.div_finite _ (by norm_num), PyFloat.ofExact_of_le (by norm_num) hquot]
    rfl
  · have hone : (1 : ℚ) ≤ rounded limit := one_le_rounded (by exact_mod_cast hl)
    refine le_rounded (representable_zpow (by norm_num)) ?_
    rw [le_div_iff₀ (by norm_num)]
    refine le_trans ?_ hone
    norm_num
  · have hzero : rounded (limit : ℚ) ≤ 0 := rounded_nonpos (by exact_mod_cast hl)
    exact rounded_nonpos (div_nonpos_of_nonpos_of_nonneg hzero (by norm_num))

/-- At least the floor of 5. -/
def Roomy (capacity : PyFloat) : Prop :=
  capacity = .inf false ∨ ∃ q, capacity = .finite q ∧ Representable q ∧ 5 ≤ q

theorem representable_five : Representable 5 := by
  have h : Representable ((5 : ℤ) : ℚ) := representable_intCast (by norm_num)
  exact_mod_cast h

theorem five_lt_overflow : 5 < PyFloat.overflow := by
  refine lt_trans ?_ (PyFloat.zpow_lt_overflow (by norm_num : (3 : ℤ) ≤ 1023))
  norm_num

theorem roomy_max {x : PyFloat} (hx : ∀ q, x = .finite q → Representable q) :
    Roomy (PyFloat.max (.finite 5) x) := by
  unfold PyFloat.max
  cases x with
  | finite q =>
      split
      · rename_i hlt
        exact .inr ⟨q, rfl, hx q rfl, (of_decide_eq_true hlt).le⟩
      · exact .inr ⟨5, rfl, representable_five, le_rfl⟩
  | inf s =>
      cases s with
      | false => exact .inl rfl
      | true => exact .inr ⟨5, rfl, representable_five, le_rfl⟩
  | nan => exact .inr ⟨5, rfl, representable_five, le_rfl⟩

theorem representable_ofExact {z q : ℚ} (h : PyFloat.ofExact z = .finite q) : Representable q := by
  unfold PyFloat.ofExact at h
  split at h <;> cases h
  exact representable_rounded z

theorem capacity_stored (rl : FloatLimiter) (h : StoredQuota limit) :
    ∃ c, rl.capacity limit = .ok c ∧ Roomy c ∧
      c = PyFloat.max (.finite 5) ((PyFloat.finite (rounded limit)).mul rl.burstRatio) := by
  refine ⟨_, by rw [FloatLimiter.capacity, (ofInt_stored h).1]; rfl, roomy_max fun q hq => ?_, rfl⟩
  cases hb : rl.burstRatio with
  | finite b =>
      rw [hb] at hq
      exact representable_ofExact hq
  | inf s =>
      rw [hb, PyFloat.mul_inf] at hq
      split at hq <;> cases hq
  | nan =>
      rw [hb] at hq
      cases hq

/-- A float that is not far below zero, or what fills an infinite capacity. -/
def Sane (t : ℚ) (tokens : PyFloat) : Prop :=
  tokens = .inf false ∨ ∃ q, tokens = .finite q ∧ Representable q ∧ -(2 ^ 61 * t) ≤ q

theorem Roomy.sane (h : Roomy capacity) {t : ℚ} (ht : 0 ≤ t) : Sane t capacity := by
  rcases h with rfl | ⟨q, rfl, hq, hle⟩
  · exact .inl rfl
  · have hneg : -(2 ^ 61 * t) ≤ 0 := neg_nonpos.mpr (mul_nonneg (by norm_num) ht)
    exact .inr ⟨q, rfl, hq, by linarith⟩

/-- The time that has passed, rounded. -/
theorem elapsed_eq (hts : 0 ≤ ts) (hle : ts ≤ now) (hnow : ClockReading now) :
    ∃ e, PyFloat.max (.finite 0) ((PyFloat.finite now).sub (.finite ts)) = .finite e ∧ 0 ≤ e ∧
      e ≤ 2 * (now - ts) := by
  have hdiff : 0 ≤ now - ts := sub_nonneg.mpr hle
  have hbound : |now - ts| ≤ 2 ^ (34 : ℤ) := by
    rw [abs_of_nonneg hdiff]
    linarith [hnow.le]
  refine ⟨rounded (now - ts), ?_, rounded_nonneg hdiff, rounded_le_two_mul hdiff⟩
  rw [PyFloat.sub_finite, PyFloat.ofExact_of_le (by norm_num) hbound, PyFloat.max_finite,
    sup_eq_right.mpr (rounded_nonneg hdiff)]

/-- What is gained in the time between, or lost at a negative quota. -/
theorem gained_eq {e : ℚ} (hts : 0 ≤ ts) (hle : ts ≤ now) (hnow : ClockReading now) (he : 0 ≤ e)
    (hmax : e ≤ 2 * (now - ts)) (hr : |r| ≤ 2 ^ (58 : ℤ)) :
    ∃ p, (PyFloat.finite e).mul (.finite r) = .finite p ∧ -(2 ^ 60 * (now - ts)) ≤ p := by
  have hlast := hnow.le
  have hsmall : |e * r| ≤ 2 ^ (93 : ℤ) := by
    have he' : e ≤ 2 ^ (35 : ℤ) := by
      norm_num at hlast ⊢
      linarith
    rw [abs_mul, abs_of_nonneg he]
    calc e * |r| ≤ 2 ^ (35 : ℤ) * 2 ^ (58 : ℤ) :=
          mul_le_mul he' hr (abs_nonneg r) (two_zpow_pos _).le
      _ = 2 ^ (93 : ℤ) := by norm_num
  refine ⟨rounded (e * r),
    by rw [PyFloat.mul_finite, PyFloat.ofExact_of_le (by norm_num) hsmall], ?_⟩
  have hlower : -(2 ^ 59 * (now - ts)) ≤ e * r := by
    have hneg : -(2 ^ (58 : ℤ)) ≤ r := (abs_le.mp hr).1
    have hprod : e * -(2 ^ (58 : ℤ)) ≤ e * r := mul_le_mul_of_nonneg_left hneg he
    norm_num at hprod ⊢
    linarith
  have hlost : -(2 ^ 59 * (now - ts)) ≤ 0 :=
    neg_nonpos.mpr (mul_nonneg (by norm_num) (sub_nonneg.mpr hle))
  have h : 0 + 2 * -(2 ^ 59 * (now - ts)) ≤ rounded (e * r) :=
    le_rounded_add representable_zero hlost (by rwa [zero_add])
  linarith

/-- **Refilling keeps a bucket sane.** -/
theorem sane_refilled {bucket : FloatBucket} (hb : Sane bucket.ts bucket.tokens)
    (hts : 0 ≤ bucket.ts) (hle : bucket.ts ≤ now) (hnow : ClockReading now)
    (hr : |r| ≤ 2 ^ (58 : ℤ)) :
    ∃ x, refilled bucket capacity (.finite r) now = PyFloat.min capacity x ∧ Sane now x := by
  obtain ⟨e, he, hnonneg, hmax⟩ := elapsed_eq hts hle hnow
  obtain ⟨p, hp, hlower⟩ := gained_eq hts hle hnow hnonneg hmax hr
  refine ⟨bucket.tokens.add (.finite p), by rw [refilled, he, hp], ?_⟩
  rcases hb with hinf | ⟨q, hq, hrep, hbound⟩
  · rw [hinf]
    exact .inl rfl
  · rw [hq, PyFloat.add_finite, PyFloat.ofExact]
    have hsum : q + -(2 ^ 60 * (now - bucket.ts)) ≤ q + p := by linarith
    split
    · refine .inr ⟨_, rfl, representable_rounded _, ?_⟩
      have h := le_rounded_add hrep (by nlinarith) hsum
      linarith
    · -- a sum beyond the largest float is not negative
      rename_i hlarge
      refine .inl ?_
      rw [decide_eq_false]
      intro hneg
      refine hlarge ?_
      have hlast := hnow.le
      have hbelow : |q + p| ≤ 2 ^ (96 : ℤ) := by
        rw [abs_of_neg hneg]
        norm_num at hlast ⊢
        linarith
      exact hbelow.trans_lt (PyFloat.zpow_lt_overflow (by norm_num))

theorem Sane.min {x : PyFloat} (hx : Sane now x) (hc : Roomy capacity) (hnow : 0 ≤ now) :
    Sane now (PyFloat.min capacity x) := by
  unfold PyFloat.min
  split
  · exact hx
  · exact hc.sane hnow

/-- So does taking a token. -/
theorem Sane.take (h : Sane now tokens) (hnow : 0 ≤ now)
    (hone : PyFloat.le (.finite 1) tokens = true) : Sane now (tokens.sub (.finite 1)) := by
  rcases h with rfl | ⟨q, rfl, -, -⟩
  · exact .inl rfl
  · have hq : 0 ≤ q - 1 := sub_nonneg.mpr (PyFloat.le_finite.mp hone)
    rw [PyFloat.sub_finite, PyFloat.ofExact]
    split
    · have hneg : -(2 ^ 61 * now) ≤ 0 := neg_nonpos.mpr (mul_nonneg (by norm_num) hnow)
      exact .inr ⟨_, rfl, representable_rounded _, hneg.trans (rounded_nonneg hq)⟩
    · refine .inl ?_
      rw [decide_eq_false (not_lt.mpr hq)]

/-! ### A local check -/

/-- A check that the process makes by itself. -/
theorem check_local {c rate : PyFloat} (hcap : rl.capacity limit = .ok c)
    (hrate : refillRate limit = .ok rate) (tenantId bucket : Str) (now : ℚ) :
    rl.check tenantId bucket limit none now =
      ((rl.checkLocal (rateLimitKey tenantId bucket) c rate now).1.map fun d =>
          { d with limitPerMinute := limit },
        (rl.checkLocal (rateLimitKey tenantId bucket) c rate now).2) := by
  unfold check
  rw [hcap, hrate]

/-- A check that the script has answered leaves the limiter as it is. -/
theorem check_answered {c rate : PyFloat} (hcap : rl.capacity limit = .ok c)
    (hrate : refillRate limit = .ok rate) (tenantId bucket : Str) (reply : ScriptReply) (now : ℚ) :
    (rl.check tenantId bucket limit (some reply) now).2 = rl := by
  unfold check
  rw [hcap, hrate]

/-- The bucket that a local check finds; a new one is full. -/
def found (rl : FloatLimiter) (key : Str) (capacity : PyFloat) (now : ℚ) : FloatBucket :=
  (rl.localBuckets.get? key).getD ⟨capacity, now⟩

theorem setBucket_get? (key k : Str) (b : FloatBucket) :
    (rl.setBucket key b).localBuckets.get? k = if k = key then some b else rl.localBuckets.get? k :=
  Dict.get?_set _ _ _ _

/-- A bucket after a check is one from before it, or it holds what was found, refilled, and less a
token when there is one. -/
theorem get?_checkLocal {key k : Str} {rate : PyFloat} {b : FloatBucket}
    (h : (rl.checkLocal key capacity rate now).2.localBuckets.get? k = some b) :
    rl.localBuckets.get? k = some b ∨
      b = ⟨refilled (rl.found key capacity now) capacity rate now, now⟩ ∨
      PyFloat.le (.finite 1) (refilled (rl.found key capacity now) capacity rate now) = true ∧
        b = ⟨(refilled (rl.found key capacity now) capacity rate now).sub (.finite 1), now⟩ := by
  unfold checkLocal at h
  rw [← found] at h
  dsimp only at h
  split at h
  · rename_i hone
    rw [setBucket_get?] at h
    split at h
    · exact .inr (.inr ⟨hone, (Option.some.inj h).symm⟩)
    · exact .inl h
  · split at h
    · dsimp only at h
      split at h
      · rw [setBucket_get?] at h
        split at h
        · exact .inr (.inl (Option.some.inj h).symm)
        · exact .inl h
      · exact .inl h
    · rw [setBucket_get?] at h
      split at h
      · exact .inr (.inl (Option.some.inj h).symm)
      · exact .inl h

/-- What is found is refilled to a sane amount, of at most a finite capacity. -/
theorem sane_found {key : Str} (hb : Sane (rl.found key capacity now).ts
    (rl.found key capacity now).tokens) (hts : 0 ≤ (rl.found key capacity now).ts)
    (hle : (rl.found key capacity now).ts ≤ now) (hnow : ClockReading now) (hc : Roomy capacity)
    (hr : |r| ≤ 2 ^ (58 : ℤ)) :
    Sane now (refilled (rl.found key capacity now) capacity (.finite r) now) ∧
      ∀ q, capacity = .finite q → ∃ x ≤ q,
        refilled (rl.found key capacity now) capacity (.finite r) now = .finite x ∧
        -(2 ^ 61 * now) ≤ x := by
  obtain ⟨x, hx, hsane⟩ := sane_refilled hb hts hle hnow hr
  rw [hx]
  refine ⟨hsane.min hc hnow.1, ?_⟩
  rintro q rfl
  have hq : -(2 ^ 61 * now) ≤ q := by
    rcases hc.sane hnow.1 with h | ⟨q', h, -, hle⟩
    · cases h
    · cases h
      exact hle
  rcases hsane with rfl | ⟨y, rfl, -, hy⟩
  · exact ⟨q, le_rfl, rfl, hq⟩
  · exact ⟨q ⊓ y, inf_le_left, PyFloat.min_finite q y, le_inf hq hy⟩

/-- **A local check is decided** at a positive rate, when the capacity is finite. -/
theorem checkLocal_decided {key : Str} {q : ℚ} (hb : Sane (rl.found key (.finite q) now).ts
    (rl.found key (.finite q) now).tokens) (hts : 0 ≤ (rl.found key (.finite q) now).ts)
    (hle : (rl.found key (.finite q) now).ts ≤ now) (hnow : ClockReading now)
    (hc : Roomy (.finite q)) (hq : q < PyFloat.overflow) (hr : |r| ≤ 2 ^ (58 : ℤ))
    (hpos : 2 ^ (-6 : ℤ) ≤ r) :
    ∃ d w, (rl.checkLocal key (.finite q) (.finite r) now).1 = .ok d ∧
      d.retryAfterSeconds = .finite w ∧ 0 ≤ w := by
  obtain ⟨x, hx, hrefilled, hlower⟩ := (sane_found hb hts hle hnow hc hr).2 q rfl
  unfold checkLocal
  rw [← found, hrefilled]
  dsimp only
  split
  · -- a token is taken
    rename_i hone
    have hone : 1 ≤ x := PyFloat.le_finite.mp hone
    have hlt : |x - 1| < PyFloat.overflow := by
      rw [abs_of_nonneg (sub_nonneg.mpr hone)]
      linarith
    rw [PyFloat.sub_finite, PyFloat.ofExact_of_lt hlt]
    exact ⟨_, 0, rfl, rfl, le_rfl⟩
  · -- the time until there is one
    rename_i hone
    have hone : x < 1 := not_le.mp fun hle => hone (PyFloat.le_finite.mpr hle)
    have hlast := hnow.le
    have hrpos : 0 < r := (two_zpow_pos _).trans_le hpos
    have hlack : |1 - x| ≤ 2 ^ (96 : ℤ) := by
      rw [abs_of_pos (by linarith)]
      norm_num at hlast ⊢
      linarith
    have hquot : |rounded (1 - x) / r| ≤ 2 ^ (102 : ℤ) := by
      rw [abs_div, abs_of_pos hrpos, div_le_iff₀ hrpos]
      calc |rounded (1 - x)| ≤ 2 ^ (96 : ℤ) := abs_rounded_le (by norm_num) hlack
        _ = 2 ^ (102 : ℤ) * 2 ^ (-6 : ℤ) := by rw [← zpow_add₀ two_ne_zero]; norm_num
        _ ≤ 2 ^ (102 : ℤ) * r := mul_le_mul_of_nonneg_left hpos (two_zpow_pos _).le
    have hnonneg : 0 ≤ rounded (1 - x) / r :=
      div_nonneg (rounded_nonneg (by linarith)) hrpos.le
    rw [PyFloat.sub_finite, PyFloat.ofExact_of_le (by norm_num) hlack,
      PyFloat.div_finite _ hrpos.ne', PyFloat.ofExact_of_le (by norm_num) hquot]
    exact ⟨_, _, rfl, rfl, rounded_nonneg hnonneg⟩

/-! ### Where nothing is rounded -/

/-- A result that is a float. -/
def IsFloat (q : ℚ) : Prop := PyFloat.ofExact q = .finite q

/-- What a check computes of a bucket are floats. -/
structure Unrounded (b : Bucket ℚ) (capacity refillRate now : ℚ) : Prop where
  elapsed : IsFloat (now - b.ts)
  gained : IsFloat (max 0 (now - b.ts) * refillRate)
  sum : IsFloat (b.tokens + max 0 (now - b.ts) * refillRate)
  taken : IsFloat (b.refilled capacity refillRate now - 1)
  lacking : IsFloat (1 - b.refilled capacity refillRate now)
  wait : IsFloat ((1 - b.refilled capacity refillRate now) / refillRate)

/-- The bucket, with a float for its tokens. -/
def floatBucket (b : Bucket ℚ) : FloatBucket := ⟨.finite b.tokens, b.ts⟩

theorem refilled_exact {b : Bucket ℚ} {c r now : ℚ} (h : Unrounded b c r now) :
    refilled (floatBucket b) (.finite c) (.finite r) now = .finite (b.refilled c r now) := by
  have helapsed : (PyFloat.finite now).sub (.finite b.ts) = .finite (now - b.ts) :=
    (PyFloat.sub_finite _ _).trans h.elapsed
  have hgained : (PyFloat.finite (max 0 (now - b.ts))).mul (.finite r) =
      .finite (max 0 (now - b.ts) * r) := h.gained
  have hsum : (PyFloat.finite b.tokens).add (.finite (max 0 (now - b.ts) * r)) =
      .finite (b.tokens + max 0 (now - b.ts) * r) := h.sum
  rw [refilled, floatBucket, helapsed, PyFloat.max_finite, hgained, hsum, PyFloat.min_finite]
  rfl

/-- **The exact limiter** decides, and reports, what the one with floats does wherever no result is
rounded. -/
theorem checkLocal_exact {exact : RateLimiter} {key : Str} {c r now : ℚ}
    (hbuckets : rl.localBuckets.get? key = (exact.localBuckets.get? key).map floatBucket)
    (h : Unrounded ((exact.localBuckets.get? key).getD ⟨c, now⟩) c r now) :
    (rl.checkLocal key (.finite c) (.finite r) now).1 =
        (exact.checkLocal key c r now).1.mapError .zeroDivision ∧
      (rl.checkLocal key (.finite c) (.finite r) now).2.localBuckets.get? key =
        ((exact.checkLocal key c r now).2.localBuckets.get? key).map floatBucket := by
  have hfound : (rl.localBuckets.get? key).getD ⟨.finite c, now⟩ =
      floatBucket ((exact.localBuckets.get? key).getD ⟨c, now⟩) := by
    rw [hbuckets]
    cases exact.localBuckets.get? key <;> rfl
  have hisSome : (rl.localBuckets.get? key).isSome = (exact.localBuckets.get? key).isSome := by
    rw [hbuckets, Option.isSome_map]
  have htokens := refilled_exact h
  unfold Bucket.refilled at htokens
  have htaken := h.taken
  have hlacking := h.lacking
  have hwait := h.wait
  unfold Bucket.refilled at htaken hlacking hwait
  unfold checkLocal RateLimiter.checkLocal
  rw [hfound, htokens]
  dsimp only
  generalize min c _ = tokens at *
  have htake : (PyFloat.finite tokens).sub (.finite 1) = .finite (tokens - 1) :=
    (PyFloat.sub_finite _ _).trans htaken
  have hlack : (PyFloat.finite 1).sub (.finite tokens) = .finite (1 - tokens) :=
    (PyFloat.sub_finite _ _).trans hlacking
  rw [htake, hlack, hisSome]
  by_cases hone : 1 ≤ tokens
  · rw [if_pos hone, if_pos (PyFloat.le_finite.mpr hone), setBucket_get?, if_pos rfl,
      RateLimiter.setBucket_get?, if_pos rfl]
    exact ⟨rfl, rfl⟩
  · rw [if_neg hone, if_neg fun h => hone (PyFloat.le_finite.mp h)]
    by_cases hzero : r = 0
    · rw [hzero, PyFloat.div_zero, if_pos rfl]
      refine ⟨rfl, ?_⟩
      dsimp only
      split
      · rw [setBucket_get?, if_pos rfl, RateLimiter.setBucket_get?, if_pos rfl]
        rfl
      · exact hbuckets
    · rw [PyFloat.div_finite _ hzero, if_neg hzero, hwait]
      dsimp only
      rw [setBucket_get?, if_pos rfl, RateLimiter.setBucket_get?, if_pos rfl]
      exact ⟨rfl, rfl⟩

end FloatLimiter

/-! ### What a run keeps -/

section Run

open FloatLimiter

variable {burstRatio : PyFloat} {past : List FloatCall} {rl : FloatLimiter}

theorem FloatChecks.burstRatio_eq (h : FloatChecks burstRatio past rl) :
    rl.burstRatio = burstRatio := by
  induction h with
  | new => rfl
  | check _ t b l reply now _ _ _ ih =>
      rw [← ih]
      unfold FloatLimiter.check
      split
      · rfl
      · rfl
      · split
        · rfl
        · unfold checkLocal
          dsimp only
          split
          · rfl
          · split
            · dsimp only
              split <;> rfl
            · rfl

/-- A bucket of a limiter that was last used by a call of the run. -/
def Kept (past : List FloatCall) (b : FloatBucket) : Prop :=
  Sane b.ts b.tokens ∧ 0 ≤ b.ts ∧ ∃ c ∈ past, c.isLocal = true ∧ c.now = b.ts

theorem Kept.cons {b : FloatBucket} (h : Kept past b) (c : FloatCall) : Kept (c :: past) b :=
  have ⟨hsane, hts, c', hc, hloc⟩ := h
  ⟨hsane, hts, c', List.mem_cons_of_mem _ hc, hloc⟩

/-- The bucket a local check finds, in a run. -/
theorem kept_found (key : Str) {capacity : PyFloat} {now : ℚ} (hc : Roomy capacity)
    (hnow : ClockReading now) (hpast : ∀ c ∈ past, c.isLocal = true → c.now ≤ now)
    (h : ∀ k b, rl.localBuckets.get? k = some b → Kept past b) :
    Sane (rl.found key capacity now).ts (rl.found key capacity now).tokens ∧
      0 ≤ (rl.found key capacity now).ts ∧ (rl.found key capacity now).ts ≤ now := by
  unfold found
  cases hget : rl.localBuckets.get? key with
  | none => exact ⟨hc.sane hnow.1, hnow.1, le_rfl⟩
  | some b =>
      obtain ⟨hsane, hts, c, hmem, hloc, heq⟩ := h key b hget
      exact ⟨hsane, hts, heq ▸ hpast c hmem hloc⟩

/-- **The buckets of a run.** -/
theorem FloatChecks.kept (h : FloatChecks burstRatio past rl) :
    ∀ k b, rl.localBuckets.get? k = some b → Kept past b := by
  induction h with
  | new => exact fun k b hb => by cases hb
  | @check past rl h t b l reply now hlimit hclock hnow ih =>
      intro k bucket hget
      obtain ⟨c, hcap, hc, -⟩ := capacity_stored rl hlimit
      obtain ⟨r, hrate, hr, -⟩ := refillRate_stored hlimit
      cases reply with
      | some reply =>
          rw [check_answered hcap hrate] at hget
          exact (ih k bucket hget).cons _
      | none =>
          rw [check_local hcap hrate] at hget
          obtain ⟨hsane, hts, hle⟩ := kept_found (rateLimitKey t b) hc (hclock rfl) (hnow rfl) ih
          have hafter := (sane_found hsane hts hle (hclock rfl) hc hr).1
          rcases get?_checkLocal hget with hb | rfl | ⟨hone, rfl⟩
          · exact (ih k bucket hb).cons _
          · exact ⟨hafter, (hclock rfl).1, _, List.mem_cons_self, rfl, rfl⟩
          · exact ⟨hafter.take (hclock rfl).1 hone, (hclock rfl).1, _, List.mem_cons_self, rfl, rfl⟩

/-- The capacity is finite. -/
def FiniteCapacity (limit : ℤ) (burstRatio : PyFloat) : Prop :=
  ∃ b, burstRatio = .finite b ∧ rounded limit * b < PyFloat.overflow

theorem capacity_finite {limit : ℤ} (hlimit : StoredQuota limit) (hl : 1 ≤ limit)
    (hratio : rl.burstRatio.Nonneg) (hfinite : FiniteCapacity limit rl.burstRatio) :
    ∃ q, rl.capacity limit = .ok (.finite q) ∧ q < PyFloat.overflow := by
  obtain ⟨c, hcap, -, hc⟩ := capacity_stored rl hlimit
  obtain ⟨b, hb, hlt⟩ := hfinite
  rw [hb] at hratio hc
  have hprod : 0 ≤ rounded (limit : ℚ) * b :=
    mul_nonneg (zero_le_one.trans (one_le_rounded (by exact_mod_cast hl))) hratio
  rw [PyFloat.mul_finite, PyFloat.ofExact_of_lt (by rwa [abs_of_nonneg hprod]), PyFloat.max] at hc
  split at hc
  · exact ⟨_, hc ▸ hcap, PyFloat.rounded_lt_overflow hlt⟩
  · exact ⟨_, hc ▸ hcap, five_lt_overflow⟩

theorem capacity_infinite {limit : ℤ} (hlimit : StoredQuota limit) (hl : 1 ≤ limit)
    (hratio : rl.burstRatio.Nonneg) (hinfinite : ¬ FiniteCapacity limit rl.burstRatio) :
    rl.capacity limit = .ok (.inf false) := by
  obtain ⟨c, hcap, -, hc⟩ := capacity_stored rl hlimit
  have hone : 1 ≤ rounded (limit : ℚ) := one_le_rounded (by exact_mod_cast hl)
  have hinf : (PyFloat.finite (rounded limit)).mul rl.burstRatio = .inf false := by
    cases hb : rl.burstRatio with
    | finite b =>
        rw [hb] at hratio hinfinite
        have hprod : 0 ≤ rounded (limit : ℚ) * b := mul_nonneg (zero_le_one.trans hone) hratio
        have hlarge : ¬ |rounded (limit : ℚ) * b| < PyFloat.overflow := by
          rw [abs_of_nonneg hprod]
          exact fun hlt => hinfinite ⟨b, rfl, hlt⟩
        rw [PyFloat.mul_finite, PyFloat.ofExact, if_neg hlarge, decide_eq_false (not_lt.mpr hprod)]
    | inf s =>
        rw [hb] at hratio
        obtain rfl : s = false := hratio
        rw [PyFloat.mul_inf, if_neg (by linarith), decide_eq_false (by linarith)]
        rfl
    | nan =>
        rw [hb] at hratio
        exact hratio.elim
  rw [hcap, hc, hinf]
  rfl

theorem capacity_nonpos {limit : ℤ} (hlimit : StoredQuota limit) (hl : limit ≤ 0)
    (hratio : rl.burstRatio.Nonneg) : rl.capacity limit = .ok (.finite 5) := by
  obtain ⟨c, hcap, -, hc⟩ := capacity_stored rl hlimit
  have hle : rounded (limit : ℚ) ≤ 0 := rounded_nonpos (by exact_mod_cast hl)
  have hlt : PyFloat.lt (.finite 5) ((PyFloat.finite (rounded limit)).mul rl.burstRatio) = false := by
    cases hb : rl.burstRatio with
    | finite b =>
        rw [hb] at hratio
        have hprod : rounded (limit : ℚ) * b ≤ 0 := mul_nonpos_of_nonpos_of_nonneg hle hratio
        rw [PyFloat.mul_finite, PyFloat.ofExact]
        split
        · have hround := rounded_nonpos hprod
          exact decide_eq_false (by linarith)
        · rename_i hlarge
          have hneg : rounded (limit : ℚ) * b < 0 := by
            refine lt_of_le_of_ne hprod fun hzero => hlarge ?_
            rw [hzero, abs_zero]
            exact (two_zpow_pos 0).trans (PyFloat.zpow_lt_overflow (by norm_num))
          rw [decide_eq_true hneg]
          rfl
    | inf s =>
        rw [hb] at hratio
        obtain rfl : s = false := hratio
        rw [PyFloat.mul_inf]
        split
        · rfl
        · rename_i hne
          rw [decide_eq_true (lt_of_le_of_ne hle hne)]
          rfl
    | nan =>
        rw [hb] at hratio
        exact hratio.elim
  rw [hcap, hc, PyFloat.max, hlt]
  rfl

/-- **A check is decided** for a positive quota, when the capacity is finite. -/
theorem check_decided (h : FloatChecks burstRatio past rl) {limit : ℤ} (hlimit : StoredQuota limit)
    (hl : 1 ≤ limit) (hratio : burstRatio.Nonneg) (hfinite : FiniteCapacity limit burstRatio)
    {now : ℚ} (hclock : ClockReading now) (hnow : ∀ c ∈ past, c.isLocal = true → c.now ≤ now)
    (tenantId bucket : Str) : ∃ d w, (rl.check tenantId bucket limit none now).1 = .ok d ∧
      d.retryAfterSeconds = .finite w ∧ 0 ≤ w := by
  obtain ⟨r, hrate, hr, hpos, -⟩ := refillRate_stored hlimit
  rw [← h.burstRatio_eq] at hratio hfinite
  obtain ⟨q, hcap, hq⟩ := capacity_finite hlimit hl hratio hfinite
  have hc : Roomy (.finite q) := by
    obtain ⟨c, hcap', hc, -⟩ := capacity_stored rl hlimit
    rw [hcap] at hcap'
    exact Except.ok.inj hcap' ▸ hc
  obtain ⟨hsane, hts, hle⟩ := kept_found (rateLimitKey tenantId bucket) hc hclock hnow h.kept
  obtain ⟨d, w, hd, hw, hnonneg⟩ :=
    checkLocal_decided hsane hts hle hclock hc hq hr (hpos hl)
  refine ⟨{ d with limitPerMinute := limit }, w, ?_, hw, hnonneg⟩
  rw [check_local hcap hrate, hd]
  rfl

/-! ### Checks that fail -/

theorem clockReading_zero : ClockReading 0 := ⟨le_rfl, by norm_num⟩

/-- **An infinite capacity** fills a new bucket with more than `int` takes. -/
theorem check_unbounded (rl : FloatLimiter) {limit : ℤ} (hlimit : StoredQuota limit)
    (tenantId bucket : Str)
    (hnew : rl.localBuckets.get? (rateLimitKey tenantId bucket) = none)
    (hcap : rl.capacity limit = .ok (.inf false)) :
    (rl.check tenantId bucket limit none 0).1 = .error (.int .overflowError) := by
  obtain ⟨r, hrate, hr, -⟩ := refillRate_stored hlimit
  obtain ⟨e, he, hnonneg, hmax⟩ := elapsed_eq le_rfl le_rfl clockReading_zero
  obtain ⟨p, hp, -⟩ := gained_eq le_rfl le_rfl clockReading_zero hnonneg hmax hr
  have hfull : refilled ⟨.inf false, 0⟩ (.inf false) (.finite r) 0 = .inf false := by
    rw [refilled, he, hp]
    rfl
  rw [check_local hcap hrate, checkLocal, hnew, Option.getD_none, hfull]
  rfl

/-- Checks of one bucket for one quota at the first reading of the clock. -/
def atOnce (burstRatio : PyFloat) (limit : ℤ) : ℕ → List FloatCall × FloatLimiter
  | 0 => ([], .new burstRatio)
  | n + 1 =>
      let (past, rl) := atOnce burstRatio limit n
      let (decision, rl') := rl.check [] [] limit none 0
      (⟨[], [], limit, none, 0, decision⟩ :: past, rl')

theorem checks_atOnce (burstRatio : PyFloat) {limit : ℤ} (hlimit : StoredQuota limit) :
    ∀ n, FloatChecks burstRatio (atOnce burstRatio limit n).1 (atOnce burstRatio limit n).2 ∧
      ∀ c ∈ (atOnce burstRatio limit n).1, c.now = 0
  | 0 => ⟨.new, fun _ hc => (by cases hc)⟩
  | n + 1 => by
      obtain ⟨hrun, hzero⟩ := checks_atOnce burstRatio hlimit n
      refine ⟨.check hrun [] [] limit none 0 hlimit (fun _ => clockReading_zero) fun _ c hc _ =>
        (hzero c hc).le, fun c hc => ?_⟩
      rcases List.mem_cons.mp hc with rfl | hc
      · rfl
      · exact hzero c hc

/-- No time passes between them. -/
theorem refilled_atOnce {t : ℚ} (ht : Representable t) (hnonneg : 0 ≤ t) (hle : t ≤ 5)
    {r : ℚ} : refilled ⟨.finite t, 0⟩ (.finite 5) (.finite r) 0 = .finite t := by
  obtain ⟨e, he, hpos, hmax⟩ := elapsed_eq le_rfl le_rfl clockReading_zero
  obtain rfl : e = 0 := by linarith
  have hsmall : |t + 0| < PyFloat.overflow := by
    rw [add_zero, abs_of_nonneg hnonneg]
    exact hle.trans_lt five_lt_overflow
  rw [refilled, he, PyFloat.mul_finite, zero_mul, PyFloat.ofExact_zero, PyFloat.add_finite,
    PyFloat.ofExact_eq (by rwa [add_zero]) hsmall, add_zero, PyFloat.min_finite,
    inf_eq_right.mpr hle]

theorem representable_natCast {n : ℕ} (hn : n ≤ 2 ^ 53) : Representable n := by
  have h : Representable ((n : ℤ) : ℚ) := representable_intCast (by
    rw [Nat.abs_cast]
    exact_mod_cast hn)
  rwa [Int.cast_natCast] at h

/-- The first five of them take the floor of the capacity, whatever the quota. -/
theorem found_atOnce {limit : ℤ} (hlimit : StoredQuota limit) (hl : limit ≤ 0)
    (hratio : burstRatio.Nonneg) : ∀ n m : ℕ, n + m = 5 →
      (atOnce burstRatio limit n).2.found (rateLimitKey [] []) (.finite 5) 0 =
        ⟨.finite (m : ℕ), 0⟩
  | 0, m, hm => by
      obtain rfl : m = 5 := by omega
      rfl
  | n + 1, m, hm => by
      have ih := found_atOnce hlimit hl hratio n (m + 1) (by omega)
      obtain ⟨hrun, -⟩ := checks_atOnce burstRatio hlimit n
      obtain ⟨r, hrate, -⟩ := refillRate_stored hlimit
      have hcap := capacity_nonpos hlimit hl (hrun.burstRatio_eq ▸ hratio)
      have hrefilled : refilled ⟨.finite ((m + 1 : ℕ) : ℚ), 0⟩ (.finite 5) (.finite r) 0 =
          .finite ((m + 1 : ℕ) : ℚ) :=
        refilled_atOnce (representable_natCast (by omega)) (Nat.cast_nonneg _)
          (by exact_mod_cast (by omega : m + 1 ≤ 5))
      have hone : PyFloat.le (.finite 1) (.finite ((m + 1 : ℕ) : ℚ)) = true :=
        PyFloat.le_finite.mpr (by exact_mod_cast Nat.le_add_left 1 m)
      have htaken : (PyFloat.finite ((m + 1 : ℕ) : ℚ)).sub (.finite 1) = .finite m := by
        have hm' : ((m + 1 : ℕ) : ℚ) - 1 = m := by rw [Nat.cast_succ, add_sub_cancel_right]
        rw [PyFloat.sub_finite, hm']
        refine PyFloat.ofExact_eq (representable_natCast (by omega)) ?_
        rw [abs_of_nonneg (Nat.cast_nonneg m)]
        have hle : (m : ℚ) ≤ 5 := by exact_mod_cast (by omega : m ≤ 5)
        exact hle.trans_lt five_lt_overflow
      change ((atOnce burstRatio limit n).2.check [] [] limit none 0).2.found _ _ _ = _
      rw [check_local hcap hrate]
      dsimp only
      rw [checkLocal, ← found, ih, hrefilled, if_pos hone, htaken, found, setBucket_get?,
        if_pos rfl, Option.getD_some]

/-- **The sixth** reports a time before now, when it reports one at all. -/
theorem check_spent {limit : ℤ} (hlimit : StoredQuota limit) (hl : limit ≤ 0)
    (hratio : burstRatio.Nonneg) {d : RateLimitDecision} {w : ℚ}
    (hd : ((atOnce burstRatio limit 5).2.check [] [] limit none 0).1 = .ok d)
    (hw : d.retryAfterSeconds = .finite w) : w < 0 := by
  obtain ⟨hrun, -⟩ := checks_atOnce burstRatio hlimit 5
  obtain ⟨r, hrate, hr, -, hnonpos⟩ := refillRate_stored hlimit
  have hcap := capacity_nonpos hlimit hl (hrun.burstRatio_eq ▸ hratio)
  have hrefilled : refilled ⟨.finite ((0 : ℕ) : ℚ), 0⟩ (.finite 5) (.finite r) 0 =
      .finite ((0 : ℕ) : ℚ) :=
    refilled_atOnce (representable_natCast (by omega)) (Nat.cast_nonneg _) (by norm_num)
  rw [check_local hcap hrate, checkLocal, ← found, found_atOnce hlimit hl hratio 5 0 rfl,
    hrefilled, Nat.cast_zero] at hd
  have hnone : ¬ PyFloat.le (.finite 1) (.finite 0) = true := fun h =>
    absurd (PyFloat.le_finite.mp h) (by norm_num)
  have hlack : (PyFloat.finite 1).sub (.finite 0) = .finite 1 := by
    rw [PyFloat.sub_finite, sub_zero]
    exact PyFloat.ofExact_eq (representable_zpow (e := 0) (by norm_num))
      (by rw [abs_one]; exact PyFloat.zpow_lt_overflow (e := 0) (by norm_num))
  dsimp only at hd
  rw [if_neg hnone, hlack] at hd
  by_cases hzero : r = 0
  · rw [hzero, PyFloat.div_zero] at hd
    cases hd
  · rw [PyFloat.div_finite 1 hzero] at hd
    cases hd
    change PyFloat.ofExact (1 / r) = .finite w at hw
    unfold PyFloat.ofExact at hw
    split at hw <;> cases hw
    -- the quotient is at most the least rate, negated
    have hneg : r < 0 := lt_of_le_of_ne (hnonpos hl) hzero
    have hquot : 1 / r ≤ -(2 ^ (-58 : ℤ)) := by
      rw [div_le_iff_of_neg hneg, neg_mul, ← mul_neg]
      rw [abs_of_neg hneg] at hr
      calc 2 ^ (-58 : ℤ) * -r ≤ 2 ^ (-58 : ℤ) * 2 ^ (58 : ℤ) :=
            mul_le_mul_of_nonneg_left hr (two_zpow_pos _).le
        _ = 1 := by rw [← zpow_add₀ two_ne_zero]; rfl
    exact (rounded_le (representable_zpow (by norm_num)).neg hquot).trans_lt
      (neg_neg_of_pos (two_zpow_pos _))

end Run

end DocSearch
