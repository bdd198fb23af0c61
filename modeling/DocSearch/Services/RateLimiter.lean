import DocSearch.Core.Floats
import DocSearch.Services.CacheKeys
import DocSearch.Support.TokenBucket

/-!
# Services — RateLimiter

Token buckets, in Redis by a script and in the process when Redis fails, in exact arithmetic.

* `draw_checkLocal`: `_check_local` is a draw from the bucket under its key.
* `bucket_bound`: what a tenant is granted by the process in any window, and what is stored for it.
* `limiters_agree_iff`: the quotas for which the script and `_check_local` cannot be told apart.
-/

namespace DocSearch

open CacheKeys TokenBucket

structure RateLimitDecision where
  allowed : Bool
  limitPerMinute : ℤ
  remaining : ℤ
  retryAfterSeconds : PyFloat
  degraded : Bool
  deriving DecidableEq

/-! ### The script -/

/-- The hash under a key, and when Redis removes it. -/
structure RedisHash where
  bucket : Bucket ℚ
  expiresAt : ℚ

/-- What the script returns. -/
structure ScriptReply where
  allowed : ℤ
  tokens : ℚ
  retryAfter : PyFloat

/-- A key is gone once its time has come. -/
def RedisHash.read (data : Option RedisHash) (now : ℚ) : Option (Bucket ℚ) :=
  (data.filter fun h => decide (now < h.expiresAt)).map RedisHash.bucket

/-- `TOKEN_BUCKET_LUA`, before `tostring` cuts what it replies to 14 digits; a division by zero gives
an infinity. -/
def tokenBucketLua (capacity refillRate cost ttl now : ℚ) (data : Option RedisHash) :
    ScriptReply × RedisHash :=
  let bucket := (RedisHash.read data now).getD ⟨capacity, now⟩
  let tokens := min capacity (bucket.tokens + max 0 (now - bucket.ts) * refillRate)
  if cost ≤ tokens then
    (⟨1, tokens - cost, .finite 0⟩, ⟨⟨tokens - cost, now⟩, now + ttl⟩)
  else
    let retryAfter := if refillRate = 0 then .inf false else .finite ((cost - tokens) / refillRate)
    (⟨0, tokens, retryAfter⟩, ⟨⟨tokens, now⟩, now + ttl⟩)

/-! ### The limiter -/

/-- The object; `localBuckets` is `_local`. -/
structure RateLimiter where
  burstRatio : ℚ
  localBuckets : Dict Str (Bucket ℚ)

namespace RateLimiter

def new (burstRatio : ℚ) : RateLimiter := ⟨burstRatio, .empty⟩

def capacity (rl : RateLimiter) (limitPerMinute : ℤ) : ℚ := max 5 (limitPerMinute * rl.burstRatio)

def setBucket (rl : RateLimiter) (key : Str) (b : Bucket ℚ) : RateLimiter :=
  { rl with localBuckets := rl.localBuckets.set key b }

/-- `_check_local`.  When it raises, a bucket that is in the dict has been refilled. -/
def checkLocal (rl : RateLimiter) (key : Str) (capacity refillRate now : ℚ) :
    Except ZeroDivision RateLimitDecision × RateLimiter :=
  let bucket := (rl.localBuckets.get? key).getD ⟨capacity, now⟩
  let tokens := min capacity (bucket.tokens + max 0 (now - bucket.ts) * refillRate)
  if 1 ≤ tokens then
    (.ok ⟨true, 0, pyInt (tokens - 1), .finite 0, true⟩, rl.setBucket key ⟨tokens - 1, now⟩)
  else if refillRate = 0 then
    (.error .raised,
      if (rl.localBuckets.get? key).isSome then rl.setBucket key ⟨tokens, now⟩ else rl)
  else
    (.ok ⟨false, 0, pyInt tokens, .finite ((1 - tokens) / refillRate), true⟩,
      rl.setBucket key ⟨tokens, now⟩)

/-- The decision made from a reply of the script. -/
def ofReply (limitPerMinute : ℤ) (reply : ScriptReply) : RateLimitDecision where
  allowed := decide (reply.allowed ≠ 0)
  limitPerMinute := limitPerMinute
  remaining := pyInt reply.tokens
  retryAfterSeconds := reply.retryAfter
  degraded := false

/-- `check`: `reply` is what the script returned, `none` when it raised or there is no Redis, and
`now` the reading of the monotonic clock, which is read in that case only. -/
def check (rl : RateLimiter) (tenantId bucket : Str) (limitPerMinute : ℤ)
    (reply : Option ScriptReply) (now : ℚ) : Except ZeroDivision RateLimitDecision × RateLimiter :=
  match reply with
  | some reply => (.ok (ofReply limitPerMinute reply), rl)
  | none =>
      let (decision, rl') := rl.checkLocal (rateLimitKey tenantId bucket)
        (rl.capacity limitPerMinute) (limitPerMinute / 60) now
      (decision.map fun d => { d with limitPerMinute := limitPerMinute }, rl')

end RateLimiter

/-! ### Runs of checks -/

/-- A call of `check`, and what came of it. -/
structure CheckCall where
  tenantId : Str
  bucket : Str
  limitPerMinute : ℤ
  reply : Option ScriptReply
  now : ℚ
  decision : Except ZeroDivision RateLimitDecision

namespace CheckCall

def key (c : CheckCall) : Str := rateLimitKey c.tenantId c.bucket

/-- The process decided by itself. -/
def isLocal (c : CheckCall) : Bool := c.reply.isNone

/-- The request was allowed. -/
def isAllowed (c : CheckCall) : Bool :=
  match c.decision with
  | .ok d => d.allowed
  | .error _ => false

/-- The request was allowed, and the decision is marked as degraded. -/
def allowedDegraded (c : CheckCall) : Bool :=
  match c.decision with
  | .ok d => d.allowed && d.degraded
  | .error _ => false

end CheckCall

/-- The calls of a process, the newest first, its monotonic clock never going back, and the limiter
they leave. -/
inductive Checks (burstRatio : ℚ) : List CheckCall → RateLimiter → Prop where
  | new : Checks burstRatio [] (.new burstRatio)
  | check {past rl} (h : Checks burstRatio past rl) (tenantId bucket : Str) (limitPerMinute : ℤ)
      (reply : Option ScriptReply) (now : ℚ)
      (hnow : reply = none → ∀ c ∈ past, c.isLocal = true → c.now ≤ now) :
      Checks burstRatio
        (⟨tenantId, bucket, limitPerMinute, reply, now,
          (rl.check tenantId bucket limitPerMinute reply now).1⟩ :: past)
        (rl.check tenantId bucket limitPerMinute reply now).2

/-- The degraded decisions that allowed a request of the tenant in the bucket, in a window. -/
def degradedGrants (past : List CheckCall) (tenantId bucket : Str) (start length : ℚ) : ℕ :=
  past.countP fun c => decide (c.tenantId = tenantId ∧ c.bucket = bucket) && c.allowedDegraded &&
    (decide (start ≤ c.now) && decide (c.now ≤ start + length))

/-- **The bound** on what the process grants, and on what it stores. -/
def Bounded (past : List CheckCall) (rl : RateLimiter) (tenantId bucket : Str) (limit : ℤ)
    (burstRatio : ℚ) : Prop :=
  (∀ start length : ℚ, 0 ≤ length →
    (degradedGrants past tenantId bucket start length : ℚ) ≤
      max 5 (limit * burstRatio) + length * limit / 60) ∧
  ∀ b, rl.localBuckets.get? (rateLimitKey tenantId bucket) = some b →
    0 ≤ b.tokens ∧ b.tokens ≤ max 5 (limit * burstRatio)

/-! ### A local check is a draw -/

namespace RateLimiter

variable {rl : RateLimiter}

theorem setBucket_get? (key k : Str) (b : Bucket ℚ) :
    (rl.setBucket key b).localBuckets.get? k = if k = key then some b else rl.localBuckets.get? k :=
  Dict.get?_set _ _ _ _

/-- With a rate to refill by, `_check_local` draws from the bucket under its key, a new one being
full. -/
theorem draw_checkLocal (rl : RateLimiter) {refillRate : ℚ} (hr : refillRate ≠ 0) (key : Str)
    (capacity now : ℚ) :
    ∃ d, (rl.checkLocal key capacity refillRate now).1 = .ok d ∧ d.degraded = true ∧
      d.allowed = (((rl.localBuckets.get? key).getD ⟨capacity, now⟩).draw capacity refillRate now).1 ∧
      (rl.checkLocal key capacity refillRate now).2 = rl.setBucket key
        (((rl.localBuckets.get? key).getD ⟨capacity, now⟩).draw capacity refillRate now).2 := by
  unfold checkLocal Bucket.draw Bucket.refilled
  dsimp only
  split_ifs <;> exact ⟨_, rfl, rfl, rfl, rfl⟩

/-- The bucket that a local check finds under its key; a new one is full. -/
def found (rl : RateLimiter) (key : Str) (limit : ℤ) (now : ℚ) : Bucket ℚ :=
  (rl.localBuckets.get? key).getD ⟨rl.capacity limit, now⟩

/-- The tokens that it finds. -/
def tokensFound (rl : RateLimiter) (key : Str) (limit : ℤ) (now : ℚ) : ℚ :=
  (rl.found key limit now).refilled (rl.capacity limit) (limit / 60) now

/-- The decision is made on the tokens. -/
theorem check_fst (tenantId bucket : Str) (limit : ℤ) (now : ℚ) :
    (rl.check tenantId bucket limit none now).1 =
      if 1 ≤ rl.tokensFound (rateLimitKey tenantId bucket) limit now then
        .ok ⟨true, limit, pyInt (rl.tokensFound (rateLimitKey tenantId bucket) limit now - 1),
          .finite 0, true⟩
      else if (limit / 60 : ℚ) = 0 then .error .raised
      else .ok ⟨false, limit, pyInt (rl.tokensFound (rateLimitKey tenantId bucket) limit now),
        .finite ((1 - rl.tokensFound (rateLimitKey tenantId bucket) limit now) / (limit / 60)),
        true⟩ := by
  unfold check checkLocal tokensFound found Bucket.refilled
  dsimp only
  split_ifs <;> rfl

/-- With a rate to refill by, it draws from the bucket. -/
theorem check_snd (tenantId bucket : Str) {limit : ℤ} (hr : (limit / 60 : ℚ) ≠ 0) (now : ℚ) :
    (rl.check tenantId bucket limit none now).2 = rl.setBucket (rateLimitKey tenantId bucket)
      ((rl.found (rateLimitKey tenantId bucket) limit now).draw (rl.capacity limit) (limit / 60)
        now).2 :=
  have ⟨_, _, _, _, h⟩ := rl.draw_checkLocal hr (rateLimitKey tenantId bucket) (rl.capacity limit) now
  h

theorem isAllowed_check (tenantId bucket : Str) (limit : ℤ) (now : ℚ) :
    CheckCall.isAllowed ⟨tenantId, bucket, limit, none, now,
        (rl.check tenantId bucket limit none now).1⟩ =
      ((rl.found (rateLimitKey tenantId bucket) limit now).draw (rl.capacity limit) (limit / 60)
        now).1 := by
  rw [CheckCall.isAllowed, check_fst, Bucket.draw_fst, ← tokensFound]
  split_ifs with hone
  · exact (decide_eq_true hone).symm
  · exact (decide_eq_false hone).symm
  · exact (decide_eq_false hone).symm

theorem one_le_capacity (rl : RateLimiter) (limit : ℤ) : 1 ≤ rl.capacity limit :=
  le_max_of_le_left (by norm_num)

/-- A check leaves the buckets of other keys alone. -/
theorem get?_check_of_ne {k : Str} {tenantId bucket : Str} (h : k ≠ rateLimitKey tenantId bucket)
    (limit : ℤ) (reply : Option ScriptReply) (now : ℚ) :
    (rl.check tenantId bucket limit reply now).2.localBuckets.get? k = rl.localBuckets.get? k := by
  cases reply with
  | some _ => rfl
  | none =>
      unfold check checkLocal
      dsimp only
      split_ifs <;> simp only [setBucket_get?, if_neg h]

theorem burstRatio_check (tenantId bucket : Str) (limit : ℤ) (reply : Option ScriptReply) (now : ℚ) :
    (rl.check tenantId bucket limit reply now).2.burstRatio = rl.burstRatio := by
  cases reply with
  | some _ => rfl
  | none =>
      unfold check checkLocal
      dsimp only
      split_ifs <;> rfl

end RateLimiter

/-! ### The draws under a key -/

theorem rate_pos {limit : ℤ} (hl : 1 ≤ limit) : (0 : ℚ) < limit / 60 :=
  div_pos (by exact_mod_cast hl) (by norm_num)

section Key

variable {burstRatio : ℚ} {past : List CheckCall} {rl : RateLimiter} {k : Str} {limit : ℤ}

/-- The draws that local checks have made under a key. -/
def drawsOf (k : Str) (past : List CheckCall) : List (ℚ × Bool) :=
  (past.filter fun c => decide (c.key = k) && c.isLocal).map fun c => (c.now, c.isAllowed)

theorem Checks.burstRatio_eq (h : Checks burstRatio past rl) : rl.burstRatio = burstRatio := by
  induction h with
  | new => rfl
  | check _ t b l r n _ ih => rw [RateLimiter.burstRatio_check, ih]

/-- **The bucket under a key** is what the draws under it have left, when all of them are made for
one quota. -/
theorem Checks.drawn (hl : 1 ≤ limit) (h : Checks burstRatio past rl)
    (hk : ∀ c ∈ past, c.key = k → c.limitPerMinute = limit) :
    (rl.localBuckets.get? k = none ∧ drawsOf k past = []) ∨
      ∃ b, rl.localBuckets.get? k = some b ∧
        Drawn (max 5 (limit * burstRatio)) (limit / 60 : ℚ) (drawsOf k past) b ∧
        ∃ c ∈ past, c.isLocal = true ∧ c.now = b.ts := by
  induction h with
  | new => exact .inl ⟨rfl, rfl⟩
  | @check past rl h t b l reply now hnow ih =>
      have ih := ih fun c hc => hk c (List.mem_cons_of_mem _ hc)
      by_cases hhere : rateLimitKey t b = k ∧ reply = none
      · obtain ⟨rfl, rfl⟩ := hhere
        obtain rfl : l = limit := hk _ List.mem_cons_self rfl
        have hcap : rl.capacity l = max 5 (l * burstRatio) := by
          rw [RateLimiter.capacity, h.burstRatio_eq]
        -- the bucket before the draw
        obtain ⟨hd₀, hts⟩ :
            Drawn (rl.capacity l) (l / 60 : ℚ) (drawsOf (rateLimitKey t b) past)
              (rl.found (rateLimitKey t b) l now) ∧
            (rl.found (rateLimitKey t b) l now).ts ≤ now := by
          rcases ih with ⟨hnone, hdraws⟩ | ⟨b₀, hsome, hd, c, hc, hloc, hts⟩
          · rw [RateLimiter.found, hnone, hdraws]
            exact ⟨.full now, le_rfl⟩
          · rw [RateLimiter.found, hsome, hcap]
            exact ⟨hd, hts ▸ hnow rfl c hc hloc⟩
        have hafter : (rl.check t b l none now).2.localBuckets.get? (rateLimitKey t b) =
            some ((rl.found (rateLimitKey t b) l now).draw (rl.capacity l) (l / 60) now).2 := by
          rw [RateLimiter.check_snd t b (rate_pos hl).ne', RateLimiter.setBucket_get?]
          exact if_pos rfl
        have hdraws : drawsOf (rateLimitKey t b)
            (⟨t, b, l, none, now, (rl.check t b l none now).1⟩ :: past) =
              (now, ((rl.found (rateLimitKey t b) l now).draw (rl.capacity l) (l / 60) now).1) ::
                drawsOf (rateLimitKey t b) past := by
          rw [drawsOf, List.filter_cons_of_pos (by simp [CheckCall.key, CheckCall.isLocal]),
            List.map_cons, RateLimiter.isAllowed_check, drawsOf]
        refine .inr ⟨_, hafter, ?_, _, List.mem_cons_self, rfl, (Bucket.draw_ts _ now).symm⟩
        rw [hdraws, ← hcap]
        exact hd₀.draw hts
      · -- the bucket is not touched, and no draw made
        have hget : (rl.check t b l reply now).2.localBuckets.get? k = rl.localBuckets.get? k := by
          cases reply with
          | some _ => rfl
          | none => exact RateLimiter.get?_check_of_ne (fun e => hhere ⟨e.symm, rfl⟩) _ _ _
        have hdraws : drawsOf k (⟨t, b, l, reply, now, (rl.check t b l reply now).1⟩ :: past) =
            drawsOf k past := by
          rw [drawsOf, List.filter_cons_of_neg]
          · rfl
          · simp only [CheckCall.key, CheckCall.isLocal, Bool.and_eq_true, Option.isNone_iff_eq_none]
            exact fun hc => hhere ⟨of_decide_eq_true hc.1, hc.2⟩
        rw [hget, hdraws]
        refine ih.imp_right ?_
        rintro ⟨b₀, hb, hd, c, hc, hloc⟩
        exact ⟨b₀, hb, hd, c, List.mem_cons_of_mem _ hc, hloc⟩

/-- A decision that is marked as degraded is the process's own. -/
theorem Checks.isLocal_of_degraded (h : Checks burstRatio past rl) :
    ∀ c ∈ past, c.allowedDegraded = true → c.isLocal = true ∧ c.isAllowed = true := by
  induction h with
  | new => exact fun c hc => by cases hc
  | @check past rl h t b l reply now hnow ih =>
      intro c hc hd
      rcases List.mem_cons.mp hc with rfl | hc
      · cases reply with
        | some r =>
            simp [CheckCall.allowedDegraded, RateLimiter.check, RateLimiter.ofReply] at hd
        | none =>
            refine ⟨rfl, ?_⟩
            revert hd
            simp only [CheckCall.allowedDegraded, CheckCall.isAllowed]
            cases (rl.check t b l none now).1 with
            | ok d => exact fun hd => (Bool.and_eq_true _ _ ▸ hd).1
            | error e => exact id
      · exact ih c hc hd

theorem Checks.degradedGrants_le (h : Checks burstRatio past rl) (t b : Str) (start length : ℚ) :
    degradedGrants past t b start length ≤
      granted (drawsOf (rateLimitKey t b) past) start (start + length) := by
  rw [granted, drawsOf, List.countP_map, List.countP_filter]
  refine List.countP_mono_left fun c hc hg => ?_
  rw [Bool.and_eq_true, Bool.and_eq_true, Bool.and_eq_true, decide_eq_true_eq] at hg
  obtain ⟨⟨⟨rfl, rfl⟩, hd⟩, hs, hstop⟩ := hg
  obtain ⟨hloc, hal⟩ := h.isLocal_of_degraded c hc hd
  simp only [Function.comp, hal, hs, hstop, hloc, CheckCall.key, decide_true, Bool.and_self]

/-- **The bound**, when no check under the key is made for another quota. -/
theorem bucket_bound (hl : 1 ≤ limit) (h : Checks burstRatio past rl)
    {tenantId bucket : Str} (hk : ∀ c ∈ past, c.key = rateLimitKey tenantId bucket →
      c.limitPerMinute = limit) : Bounded past rl tenantId bucket limit burstRatio := by
  have hrate : (0 : ℚ) ≤ limit / 60 := (rate_pos hl).le
  have hcap : (0 : ℚ) ≤ max 5 (limit * burstRatio) := le_max_of_le_left (by norm_num)
  rcases h.drawn hl hk with ⟨hnone, hdraws⟩ | ⟨b, hb, hd, -⟩
  · refine ⟨fun start length hlen => ?_, fun b hb => by rw [hnone] at hb; cases hb⟩
    have hle := h.degradedGrants_le tenantId bucket start length
    rw [hdraws] at hle
    have hzero : degradedGrants past tenantId bucket start length = 0 := Nat.le_zero.mp hle
    have hrefill := mul_nonneg hlen hrate
    rw [hzero, Nat.cast_zero]
    linarith
  · refine ⟨fun start length hlen => ?_, fun b' hb' => ?_⟩
    · have hle : (degradedGrants past tenantId bucket start length : ℚ) ≤
          granted (drawsOf (rateLimitKey tenantId bucket) past) start (start + length) :=
        Nat.cast_le.mpr (h.degradedGrants_le tenantId bucket start length)
      have hw := hd.window hcap hrate (le_add_of_nonneg_right hlen : start ≤ start + length)
      linarith
    · rw [hb] at hb'
      cases hb'
      exact hd.tokens hcap hrate

end Key

/-! ### The two limiters -/

/-- What a caller sees of a decision, but for its being degraded. -/
def RateLimitDecision.seen (d : RateLimitDecision) : Bool × ℤ × PyFloat :=
  (d.allowed, d.remaining, d.retryAfterSeconds)

/-- The script, run at each of the times as `check` runs it. -/
def scriptRun (capacity refillRate : ℚ) : Option RedisHash → List ℚ → List (Bool × ℤ × PyFloat)
  | _, [] => []
  | data, now :: nows =>
      let (reply, data) := tokenBucketLua capacity refillRate 1 120 now data
      (RateLimiter.ofReply 0 reply).seen :: scriptRun capacity refillRate (some data) nows

/-- `_check_local`, at each of the times. -/
def localRun (key : Str) (capacity refillRate : ℚ) :
    RateLimiter → List ℚ → List (Option (Bool × ℤ × PyFloat))
  | _, [] => []
  | rl, now :: nows =>
      let (decision, rl) := rl.checkLocal key capacity refillRate now
      (decision.toOption.map RateLimitDecision.seen) :: localRun key capacity refillRate rl nows

/-- The configured burst ratio. -/
def configuredBurstRatio : ℚ := 1 / 4

/-- The two limiters cannot be told apart. -/
def LimitersAgree (limit : ℤ) : Prop :=
  ∀ (key : Str) (times : List ℚ), times.Pairwise (· ≤ ·) →
    localRun key ((RateLimiter.new configuredBurstRatio).capacity limit) (limit / 60)
        (.new configuredBurstRatio) times =
      (scriptRun ((RateLimiter.new configuredBurstRatio).capacity limit) (limit / 60) none times).map
        some

section Simulation

variable {capacity refillRate : ℚ} {key : Str} {data : Option RedisHash} {rl : RateLimiter}

/-- The two hold the same bucket, whose key in Redis goes 120 seconds after it was counted. -/
structure SameBucket (key : Str) (data : Option RedisHash) (rl : RateLimiter) : Prop where
  hash : data = (rl.localBuckets.get? key).map fun b => ⟨b, b.ts + 120⟩
  tokens : ∀ b, rl.localBuckets.get? key = some b → 0 ≤ b.tokens

/-- Where the two count the same tokens, they decide the same and hold the same bucket again. -/
theorem SameBucket.step (hc : 0 ≤ capacity) (hr : 0 < refillRate) {now : ℚ}
    (hs : SameBucket key data rl)
    (he : ((RedisHash.read data now).getD ⟨capacity, now⟩).refilled capacity refillRate now =
      ((rl.localBuckets.get? key).getD ⟨capacity, now⟩).refilled capacity refillRate now) :
    (rl.checkLocal key capacity refillRate now).1.toOption.map RateLimitDecision.seen =
        some (RateLimiter.ofReply 0 (tokenBucketLua capacity refillRate 1 120 now data).1).seen ∧
      SameBucket key (some (tokenBucketLua capacity refillRate 1 120 now data).2)
        (rl.checkLocal key capacity refillRate now).2 ∧
      ∀ b, (rl.checkLocal key capacity refillRate now).2.localBuckets.get? key = some b → b.ts = now := by
  have htok : 0 ≤ ((rl.localBuckets.get? key).getD ⟨capacity, now⟩).tokens := by
    cases hb : rl.localBuckets.get? key with
    | none => exact hc
    | some b => exact hs.tokens b hb
  have hnonneg := Bucket.refilled_nonneg hc hr.le htok now
  have stored : ∀ b : Bucket ℚ, 0 ≤ b.tokens →
      SameBucket key (some ⟨b, b.ts + 120⟩) (rl.setBucket key b) ∧
        ∀ b', (rl.setBucket key b).localBuckets.get? key = some b' → b'.ts = b.ts := fun b hb => by
    have hget : (rl.setBucket key b).localBuckets.get? key = some b := by
      rw [RateLimiter.setBucket_get?, if_pos rfl]
    refine ⟨⟨by rw [hget]; rfl, fun b' hb' => ?_⟩, fun b' hb' => ?_⟩ <;>
      · rw [hget] at hb'
        cases hb'
        first | exact hb | rfl
  unfold Bucket.refilled at he hnonneg
  unfold tokenBucketLua RateLimiter.checkLocal
  dsimp only
  rw [he]
  by_cases hone : 1 ≤ min capacity (((rl.localBuckets.get? key).getD ⟨capacity, now⟩).tokens +
      max 0 (now - ((rl.localBuckets.get? key).getD ⟨capacity, now⟩).ts) * refillRate)
  · rw [if_pos hone, if_pos hone]
    exact ⟨rfl, stored ⟨_, now⟩ (sub_nonneg.mpr hone)⟩
  · rw [if_neg hone, if_neg hone, if_neg hr.ne', if_neg hr.ne']
    exact ⟨rfl, stored ⟨_, now⟩ hnonneg⟩

/-- A bucket that is full after 120 seconds is the same whether or not it is forgotten by then. -/
theorem SameBucket.refilled_eq (hfull : capacity ≤ 120 * refillRate) (hr : 0 < refillRate) {now : ℚ}
    (hs : SameBucket key data rl)
    (hnow : ∀ b, rl.localBuckets.get? key = some b → b.ts ≤ now) :
    ((RedisHash.read data now).getD ⟨capacity, now⟩).refilled capacity refillRate now =
      ((rl.localBuckets.get? key).getD ⟨capacity, now⟩).refilled capacity refillRate now := by
  rw [hs.hash]
  cases hb : rl.localBuckets.get? key with
  | none => rfl
  | some b =>
      by_cases hlive : now < b.ts + 120
      · have hread : RedisHash.read ((some b).map fun b => ⟨b, b.ts + 120⟩) now = some b := by
          simp [RedisHash.read, hlive]
        rw [hread]
      · have hread : RedisHash.read ((some b).map fun b => ⟨b, b.ts + 120⟩) now = none := by
          simp [RedisHash.read, not_lt.mp hlive]
        rw [hread]
        -- both are full
        have hgap : 120 * refillRate ≤ (now - b.ts) * refillRate :=
          mul_le_mul_of_nonneg_right (by linarith) hr.le
        have htok := hs.tokens b hb
        unfold Bucket.refilled
        dsimp only [Option.getD]
        rw [sub_self, max_self, zero_mul, add_zero, min_self,
          max_eq_right (sub_nonneg.mpr (hnow b hb)), min_eq_left (by linarith)]

theorem SameBucket.run (hc : 0 ≤ capacity) (hfull : capacity ≤ 120 * refillRate)
    (hr : 0 < refillRate) :
    ∀ {times : List ℚ} {data : Option RedisHash} {rl : RateLimiter}, times.Pairwise (· ≤ ·) →
      SameBucket key data rl →
      (∀ b, rl.localBuckets.get? key = some b → ∀ now ∈ times, b.ts ≤ now) →
      localRun key capacity refillRate rl times =
        (scriptRun capacity refillRate data times).map some
  | [], _, _, _, _, _ => rfl
  | now :: nows, data, rl, htimes, hs, hpast => by
      obtain ⟨hhead, htail⟩ := List.pairwise_cons.mp htimes
      have he := hs.refilled_eq hfull hr fun b hb => hpast b hb now List.mem_cons_self
      obtain ⟨hseen, hs', hts⟩ := hs.step hc hr he
      have ih := SameBucket.run hc hfull hr htail hs' fun b hb now' hm => hts b hb ▸ hhead now' hm
      rw [localRun, scriptRun]
      dsimp only
      rw [List.map_cons, hseen, ih]

end Simulation

/-- **Agreement.**  The expiry of the key cannot be seen exactly for quotas of 3 a minute or more:
below that, a bucket of 5 tokens takes more than 120 seconds to fill. -/
theorem limiters_agree_iff {limit : ℤ} (hl : 1 ≤ limit) : LimitersAgree limit ↔ 3 ≤ limit := by
  constructor
  · intro h
    by_contra hlt
    have hrun := h [] [0, 0, 0, 0, 0, 121] (by decide +kernel)
    obtain rfl | rfl : limit = 1 ∨ limit = 2 := by omega
    · exact absurd hrun (by decide +kernel)
    · exact absurd hrun (by decide +kernel)
  · intro h key times htimes
    have h3 : (3 : ℚ) ≤ limit := by exact_mod_cast h
    have hcap : (RateLimiter.new configuredBurstRatio).capacity limit =
        max (5 : ℚ) ((limit : ℚ) * (1 / 4)) := rfl
    refine SameBucket.run ?_ ?_ ?_ htimes ⟨rfl, nofun⟩ nofun
    · exact hcap ▸ le_max_of_le_left (by norm_num)
    · rw [hcap]
      exact max_le (by linarith) (by linarith)
    · linarith

namespace Sample

/-- A check of the tenant `acme` in a bucket `eu:search`, and one of the tenant `acme:eu` in the
bucket `search`, which has the same key. -/
def sharedKey : List CheckCall × RateLimiter :=
  let rl := RateLimiter.new configuredBurstRatio
  let own := rl.check "acme".toList "eu:search".toList 60 none 0
  let other := own.2.check "acme:eu".toList "search".toList 1200 none 60
  ([⟨"acme:eu".toList, "search".toList, 1200, none, 60, other.1⟩,
    ⟨"acme".toList, "eu:search".toList, 60, none, 0, own.1⟩], other.2)

theorem checks_sharedKey : Checks configuredBurstRatio sharedKey.1 sharedKey.2 := by
  refine .check (.check .new _ _ 60 none 0 fun _ c hc => ?_) _ _ 1200 none 60 fun _ c hc _ => ?_
  · cases hc
  · cases List.mem_singleton.mp hc
    norm_num

/-- **More than the bucket of the tenant holds.**  The other tenant has left 299 tokens under the
key, where the quota of 60 a minute allows 15. -/
theorem shared_key : ¬ ∀ (burstRatio : ℚ) (limit : ℤ) past rl tenantId bucket, 0 ≤ burstRatio →
    1 ≤ limit → Checks burstRatio past rl →
    (∀ c ∈ past, c.tenantId = tenantId → c.bucket = bucket → c.limitPerMinute = limit) →
    Bounded past rl tenantId bucket limit burstRatio := by
  intro h
  have hb := (h configuredBurstRatio 60 _ _ "acme".toList "eu:search".toList (by decide +kernel)
    (by decide) checks_sharedKey (by decide +kernel)).2 ⟨299, 60⟩ (by decide +kernel)
  exact absurd hb.2 (by decide +kernel)

/-- A burst of one tenant, with a check that Redis decides and one of another tenant in between. -/
def burst : List CheckCall × RateLimiter :=
  let rl := RateLimiter.new configuredBurstRatio
  let first := rl.check "acme".toList "search".toList 60 none 0
  let second := first.2.check "globex".toList "search".toList 1200 none 1
  let third := second.2.check "acme".toList "search".toList 60 (some ⟨1, 14, .finite 0⟩) 1
  ([⟨"acme".toList, "search".toList, 60, some ⟨1, 14, .finite 0⟩, 1, third.1⟩,
    ⟨"globex".toList, "search".toList, 1200, none, 1, second.1⟩,
    ⟨"acme".toList, "search".toList, 60, none, 0, first.1⟩], third.2)

theorem checks_burst : Checks configuredBurstRatio burst.1 burst.2 := by
  refine .check (.check (.check .new _ _ 60 none 0 fun _ c hc => ?_) _ _ 1200 none 1
    fun _ c hc _ => ?_) _ _ 60 (some ⟨1, 14, .finite 0⟩) 1 fun hr => ?_
  · cases hc
  · cases List.mem_singleton.mp hc
    norm_num
  · cases hr

theorem bucket_bound_sample :
    Bounded burst.1 burst.2 "acme".toList "search".toList 60 configuredBurstRatio :=
  bucket_bound (by decide) checks_burst (by decide +kernel)

theorem limiters_agree_sample : LimitersAgree 60 ↔ (3 : ℤ) ≤ 60 := limiters_agree_iff (by decide)

/-- **A burst after two idle minutes**, for a quota of one a minute: the script has forgotten the
bucket, and starts from a full one. -/
theorem forgotten_bucket : ¬ ∀ limit : ℤ, 1 ≤ limit → LimitersAgree limit := fun h =>
  absurd (h 1 le_rfl [] [0, 0, 0, 0, 0, 121] (by decide +kernel)) (by decide +kernel)

end Sample

end DocSearch
