import DocSearch.Models.Tenant
import DocSearch.Services.FloatLimiter
import DocSearch.Services.RetryAfter
import Mathlib.Data.Rat.Floor

/-!
# Api — RateLimited

The dependency that limits a route, and the response that tells a tenant to wait.

* `retry_exact`: the time reported is the time after which the tenant is allowed again.
* `answered_iff`: the quotas for which every check is answered, in the arithmetic of floats.
-/

namespace DocSearch

open CacheKeys TokenBucket

/-- `round(q, n)`: ties go to the even neighbour. -/
def pyRound (q : ℚ) (n : ℕ) : ℚ :=
  let down := ⌊q * 10 ^ n⌋
  let rest := q * 10 ^ n - down
  (if rest < 1 / 2 ∨ (rest = 1 / 2 ∧ down % 2 = 0) then down else down + 1) / 10 ^ n

/-- `round(x, n)` leaves the other floats as they are. -/
def PyFloat.round (n : ℕ) : PyFloat → PyFloat
  | .finite q => .finite (pyRound q n)
  | x => x

example : pyRound (1 / 16) 3 = 31 / 500 ∧ pyRound (-3 / 2) 0 = -2 := by decide +kernel

/-- An error that the API maps to a response; `retryAfterSeconds` is an attribute of a
`RateLimitedError` only. -/
structure AppError where
  statusCode : ℕ
  code : Str
  message : Str
  details : List (Str × Json)
  retryAfterSeconds : Option PyFloat

/-- `RateLimitedError(retry_after_seconds, limit)`. -/
def rateLimitedError (retryAfterSeconds : PyFloat) (limit : ℤ) : AppError where
  statusCode := 429
  code := "rate_limited".toList
  message := "Per-tenant rate limit exceeded.".toList
  details := [("retry_after_seconds".toList, .float (retryAfterSeconds.round 3)),
    ("limit_per_minute".toList, .int limit)]
  retryAfterSeconds := some retryAfterSeconds

structure JsonResponse where
  statusCode : ℕ
  content : Json
  headers : List (Str × Str)

/-- `_envelope`. -/
def envelope (requestId code message : Str) (details : List (Str × Json)) : Json :=
  .object [("error".toList, .object [("code".toList, .str code), ("message".toList, .str message),
    ("request_id".toList, .str requestId), ("details".toList, .object details)])]

/-- `handle_app_error`. -/
def handleAppError (requestId : Str) (exc : AppError) : Except IntError JsonResponse := do
  let headers ← match exc.retryAfterSeconds with
    | none => .ok []
    | some retryAfter =>
        retryAfter.toInt.map fun n => [("Retry-After".toList, strInt (max 1 (n + 1)))]
  .ok ⟨exc.statusCode, envelope requestId exc.code exc.message exc.details, headers⟩

/-- The end of `rate_limited`'s dependency: a decision that does not allow the request is raised. -/
def enforce (limitPerMinute : ℤ) (decision : RateLimitDecision) : Except AppError Unit :=
  if decision.allowed then .ok ()
  else .error (rateLimitedError decision.retryAfterSeconds limitPerMinute)

/-- `rate_limited(bucket)`, for a tenant: the decision that it leaves on the request, and whether it
raises. -/
def rateLimited (bucket : Str) (rl : RateLimiter) (tenant : Tenant) (reply : Option ScriptReply)
    (now : ℚ) : Except ZeroDivision (RateLimitDecision × Except AppError Unit) × RateLimiter :=
  let (decision, rl) := rl.check tenant.id bucket tenant.rateLimitPerMinute reply now
  (decision.map fun decision => (decision, enforce tenant.rateLimitPerMinute decision), rl)

/-! ### The time to wait -/

/-- The seconds of the header are enough. -/
theorem le_pyInt_add_one {r : ℚ} (hr : 0 ≤ r) : r ≤ pyInt r + 1 := by
  have hfloor : pyInt r = ⌊r⌋ := by
    rw [pyInt, Int.tdiv_eq_ediv_of_nonneg (Rat.num_nonneg.mpr hr), Rat.floor_def']
  rw [hfloor]
  exact (Int.lt_floor_add_one r).le

/-- The response to a refusal. -/
theorem handle_enforce {limit : ℤ} {d : RateLimitDecision} {r : ℚ} (hdenied : d.allowed = false)
    (hr : d.retryAfterSeconds = .finite r) (requestId : Str) :
    ∃ exc response, enforce limit d = .error exc ∧ handleAppError requestId exc = .ok response ∧
      response.statusCode = 429 ∧
      response.headers = [("Retry-After".toList, strInt (max 1 (pyInt r + 1)))] := by
  have henforce : enforce limit d = .error (rateLimitedError (.finite r) limit) := by
    rw [enforce, hdenied, hr]
    rfl
  exact ⟨_, _, henforce, rfl, rfl, rfl⟩

/-- The time to wait that a refusal reports, `later` being the calls made after it, the newest
first. -/
structure ExactRetry (denied : CheckCall) (d : RateLimitDecision) (later : List CheckCall) (r : ℚ) :
    Prop where
  reported : d.retryAfterSeconds = .finite r
  pos : 0 < r
  before : ∀ c ∈ later, c.IsLocalAt denied.key → c.now < denied.now + r → c.isDenied = true
  /-- The first check of the key from then on. -/
  first : ∀ newer c older, later = newer ++ c :: older → c.IsLocalAt denied.key →
    denied.now + r ≤ c.now → (∀ c' ∈ older, c'.IsLocalAt denied.key → c'.now < denied.now + r) →
    c.isAllowed = true
  response : ∀ requestId, ∃ exc response, enforce denied.limitPerMinute d = .error exc ∧
    handleAppError requestId exc = .ok response ∧ response.statusCode = 429 ∧
    response.headers = [("Retry-After".toList, strInt (max 1 (pyInt r + 1)))]
  header : r ≤ max 1 (pyInt r + 1 : ℤ)

/-- **Exact, and undisturbed by polling**: a local check that is refused reports how long to wait.
The checks of the key for the same quota are refused until then, and the first one from then on is
allowed, however many were refused in between. -/
theorem retry_exact {burstRatio : ℚ} {past later : List CheckCall} {denied : CheckCall}
    {rl : RateLimiter} {d : RateLimitDecision}
    (h : Checks burstRatio (later ++ denied :: past) rl) (hl : 1 ≤ denied.limitPerMinute)
    (hloc : denied.isLocal = true) (hd : denied.decision = .ok d) (hdenied : d.allowed = false)
    (hquota : ∀ c ∈ later, c.IsLocalAt denied.key → c.limitPerMinute = denied.limitPerMinute) :
    ∃ r, ExactRetry denied d later r := by
  obtain ⟨rl₀, h₀⟩ := h.of_append
  obtain ⟨r, hr, hpos, -⟩ := h₀.waiting_of_denied hl hloc hd hdenied
  have start : ∀ {rl₀ : RateLimiter}, Checks burstRatio (denied :: past) rl₀ →
      Waiting denied.key denied.limitPerMinute (denied.now + r) (denied :: past) rl₀ := fun h₁ => by
    obtain ⟨r', hr', -, hw⟩ := h₁.waiting_of_denied hl hloc hd hdenied
    rw [hr, PyFloat.finite.injEq] at hr'
    exact hr' ▸ hw
  refine ⟨r, hr, hpos, fun c hc hat hlt => h.denied_before hl start hquota hc hat hlt, ?_,
    handle_enforce hdenied hr, ?_⟩
  · rintro newer c older rfl hat hdue hbefore
    rw [List.append_assoc, List.cons_append] at h
    exact (h.polled hl start (fun c' hc' => hquota c' (List.mem_append_right _ hc')) hbefore
      hat).1 hdue
  · rw [Int.cast_max]
    push_cast
    exact le_max_of_le_right (le_pyInt_add_one hpos.le)

/-! ### Every check, in the arithmetic of floats -/

/-- **Answered**: the check gives a decision, the time to wait is finite and not negative, and a
refusal becomes a response. -/
def FloatCall.Answered (c : FloatCall) : Prop :=
  ∃ d, c.decision = .ok d ∧ (∃ r, d.retryAfterSeconds = .finite r ∧ 0 ≤ r) ∧
    ∀ requestId exc, enforce c.limitPerMinute d = .error exc →
      ∃ response, handleAppError requestId exc = .ok response

theorem handleAppError_finite {limit : ℤ} {d : RateLimitDecision} {r : ℚ}
    (hr : d.retryAfterSeconds = .finite r) (requestId : Str) (exc : AppError)
    (h : enforce limit d = .error exc) :
    ∃ response, handleAppError requestId exc = .ok response := by
  unfold enforce at h
  split at h
  · cases h
  · rw [← Except.error.inj h, hr]
    exact ⟨_, rfl⟩

section Answered

variable {burstRatio : PyFloat} {past : List FloatCall} {rl : FloatLimiter} {limit : ℤ}

/-- A positive quota with a finite capacity is answered, whatever the other checks of the run. -/
theorem FloatChecks.answered (h : FloatChecks burstRatio past rl) (hratio : burstRatio.Nonneg)
    (hl : 1 ≤ limit) (hfinite : FiniteCapacity limit burstRatio) :
    ∀ c ∈ past, c.isLocal = true → c.limitPerMinute = limit → c.Answered := by
  induction h with
  | new => exact fun c hc => by cases hc
  | @check past rl h t b l reply now hlimit hclock hnow ih =>
      intro c hc hloc hquota
      rcases List.mem_cons.mp hc with rfl | hc
      · obtain rfl : reply = none := Option.isNone_iff_eq_none.mp hloc
        obtain rfl : l = limit := hquota
        obtain ⟨d, w, hd, hw, hnonneg⟩ :=
          check_decided h hlimit hl hratio hfinite (hclock rfl) (hnow rfl) t b
        exact ⟨d, hd, ⟨w, hw, hnonneg⟩, handleAppError_finite hw⟩
      · exact ih c hc hloc hquota

/-- The sixth of six checks at one instant is not answered for a quota that is not positive. -/
theorem not_answered_spent (hlimit : StoredQuota limit) (hl : limit ≤ 0)
    (hratio : burstRatio.Nonneg) : ¬ FloatCall.Answered ⟨[], [], limit, none, 0,
      ((atOnce burstRatio limit 5).2.check [] [] limit none 0).1⟩ := by
  rintro ⟨d, hd, ⟨w, hw, hnonneg⟩, -⟩
  exact absurd hnonneg (not_le.mpr (check_spent hlimit hl hratio hd hw))

/-- Nor is the first check of a bucket whose capacity is not finite. -/
theorem not_answered_unbounded (hlimit : StoredQuota limit) (hl : 1 ≤ limit)
    (hratio : burstRatio.Nonneg) (hinfinite : ¬ FiniteCapacity limit burstRatio) :
    ¬ FloatCall.Answered ⟨[], [], limit, none, 0,
      ((FloatLimiter.new burstRatio).check [] [] limit none 0).1⟩ := by
  rintro ⟨d, hd, -⟩
  have hraised := check_unbounded (.new burstRatio) hlimit [] [] rfl
    (capacity_infinite hlimit hl hratio hinfinite)
  cases hd.symm.trans hraised

/-- **Every check of every run is answered** for the quotas of at least one request a minute whose
capacity is finite, and for these only. -/
theorem answered_iff (hratio : burstRatio.Nonneg) (hlimit : StoredQuota limit) :
    (∀ past rl, FloatChecks burstRatio past rl →
      ∀ c ∈ past, c.isLocal = true → c.limitPerMinute = limit → c.Answered) ↔
        1 ≤ limit ∧ FiniteCapacity limit burstRatio := by
  constructor
  · intro h
    have hl : 1 ≤ limit := by
      by_contra hlt
      exact not_answered_spent hlimit (by omega) hratio
        (h _ _ (checks_atOnce burstRatio hlimit 6).1 _ List.mem_cons_self rfl rfl)
    refine ⟨hl, ?_⟩
    by_contra hinfinite
    exact not_answered_unbounded hlimit hl hratio hinfinite
      (h _ _ (checks_atOnce burstRatio hlimit 1).1 _ List.mem_cons_self rfl rfl)
  · intro hl past rl h
    exact h.answered hratio hl.1 hl.2

end Answered

namespace Sample

/-- The checks of a tenant for 12 requests a minute. -/
def polled (times : List ℚ) : List CheckCall × RateLimiter :=
  RateLimiter.polls configuredBurstRatio "acme".toList "search".toList 12 times

/-- The sixth of them at one instant, told to wait 5 seconds. -/
def refused : CheckCall :=
  ⟨"acme".toList, "search".toList, 12, none, 0,
    ((polled [0, 0, 0, 0, 0]).2.check "acme".toList "search".toList 12 none 0).1⟩

/-- Two more, after 2 seconds and after 5. -/
def again : List CheckCall := (polled [5, 2, 0, 0, 0, 0, 0, 0]).1.take 2

theorem checks_again : Checks configuredBurstRatio
    (again ++ refused :: (polled [0, 0, 0, 0, 0]).1) (polled [5, 2, 0, 0, 0, 0, 0, 0]).2 :=
  RateLimiter.checks_polls _ _ _ _
    (by decide +kernel : [(5 : ℚ), 2, 0, 0, 0, 0, 0, 0].Pairwise (· ≥ ·))

theorem retry_exact_sample : ∃ r, ExactRetry refused ⟨false, 12, 0, .finite 5, true⟩ again r := by
  refine retry_exact checks_again (by decide) rfl (by decide +kernel) rfl fun c hc _ => ?_
  rcases List.mem_cons.mp hc with rfl | hc
  · rfl
  · cases List.mem_singleton.mp hc
    rfl

theorem configured_nonneg : (PyFloat.finite configuredBurstRatio).Nonneg :=
  show (0 : ℚ) ≤ configuredBurstRatio by decide +kernel

theorem answered_sample : (∀ past rl, FloatChecks (.finite configuredBurstRatio) past rl →
    ∀ c ∈ past, c.isLocal = true → c.limitPerMinute = 12 → c.Answered) ↔
      (1 : ℤ) ≤ 12 ∧ FiniteCapacity 12 (.finite configuredBurstRatio) :=
  answered_iff configured_nonneg (by decide)

/-- A capacity beyond the largest float. -/
example : ((FloatLimiter.new (.finite (10 ^ 307))).check [] [] 120 none 0).1 =
    .error (.int .overflowError) := by decide +kernel

/-- **A quota of none.**  The sixth check at one instant divides by zero. -/
theorem quota_of_none : ¬ ∀ (limit : ℤ) (burstRatio : PyFloat), StoredQuota limit →
    burstRatio.Nonneg → ∀ past rl, FloatChecks burstRatio past rl →
      (∀ c ∈ past, c.limitPerMinute = limit) → ∀ c ∈ past, c.isLocal = true → c.Answered := by
  intro h
  have hraised : ((atOnce (.finite configuredBurstRatio) 0 5).2.check [] [] 0 none 0).1 =
      .error (.zeroDivision .raised) := by decide +kernel
  have hrun := (checks_atOnce (.finite configuredBurstRatio) (by decide : StoredQuota 0) 6).1
  obtain ⟨d, hd, -⟩ := h 0 (.finite configuredBurstRatio) (by decide) configured_nonneg _ _ hrun
    (by decide +kernel) _ List.mem_cons_self rfl
  cases hd.symm.trans hraised

end Sample

end DocSearch
