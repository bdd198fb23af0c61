import DocSearch.Api.RateLimited
import DocSearch.Services.KeySpace
import DocSearch.Services.Replicas
import DocSearch.Support.Noninterference

/-!
# Api — Buckets

Over one Redis and any number of replicas, each tenant has a budget of its own in each bucket.

* `SameBucketAt.check`: a limiter decides by what it holds under the key of the check.
* `SameBudget`: two deployments that hold the same under a key.
* `buckets_separated`: what a tenant is told in a bucket does not depend on the requests of others,
  nor on its own requests in other buckets.
-/

namespace DocSearch

open CacheKeys Noninterference

/-- A request that a route limits, at a replica. -/
structure LimitedCall (ι : Type) where
  replica : ι
  now : ℚ
  script : ScriptCall
  tenant : Tenant
  bucket : RateBucket

/-- What `rate_limited` leaves on the request, and whether it raises. -/
abbrev LimitReply : Type := Except ZeroDivision (RateLimitDecision × Except AppError Unit)

namespace LimitedCall

variable {ι : Type}

def key (c : LimitedCall ι) : Str := rateLimitKey c.tenant.id c.bucket.name

/-- A tenant's request in a bucket. -/
def Within (tenantId : Str) (bucket : RateBucket) (c : LimitedCall ι) : Prop :=
  c.tenant.id = tenantId ∧ c.bucket = bucket

instance (tenantId : Str) (bucket : RateBucket) (c : LimitedCall ι) :
    Decidable (c.Within tenantId bucket) :=
  inferInstanceAs (Decidable (_ ∧ _))

/-- Only such a request uses their key. -/
theorem key_eq_iff {tenantId : Str} {bucket : RateBucket} {c : LimitedCall ι} :
    c.key = rateLimitKey tenantId bucket.name ↔ c.Within tenantId bucket := by
  constructor
  · intro h
    obtain ⟨ht, hb⟩ :=
      rateLimitKey_inj (KeyCall.colon_notMem_name _) (KeyCall.colon_notMem_name _) h
    exact ⟨ht, KeyCall.name_injective hb⟩
  · rintro ⟨rfl, rfl⟩
    rfl

end LimitedCall

section System

variable {ι : Type} [DecidableEq ι]

/-- The replicas, answering request after request. -/
def limits (k : Clocks ι) : System (Replicas ι) (LimitedCall ι) LimitReply where
  step s c := (s.check k c.replica c.now c.script c.tenant.id c.bucket.name
    c.tenant.rateLimitPerMinute).2
  reply s c := (rateLimited c.bucket.name (s.limiters c.replica) c.tenant
    (s.reply k c.replica c.now c.script c.tenant.id c.bucket.name c.tenant.rateLimitPerMinute)
    (c.now + k.monotonic c.replica)).1

/-- A tenant, as it sees its requests in a bucket. -/
def budgetOf (tenantId : Str) (bucket : RateBucket) : Observer (LimitedCall ι) where
  part c := if c.Within tenantId bucket then some c else none
  hears c := decide (c.Within tenantId bucket)

end System

/-! ### What a limiter decides by -/

/-- The bucket under a key, and the ratio that makes its capacity. -/
structure SameBucketAt (key : Str) (rl rl' : RateLimiter) : Prop where
  burstRatio : rl.burstRatio = rl'.burstRatio
  held : rl.localBuckets.get? key = rl'.localBuckets.get? key

namespace SameBucketAt

variable {key : Str} {rl rl' : RateLimiter}

theorem setBucket (h : SameBucketAt key rl rl') (b : TokenBucket.Bucket ℚ) :
    SameBucketAt key (rl.setBucket key b) (rl'.setBucket key b) where
  burstRatio := h.burstRatio
  held := by rw [RateLimiter.setBucket_get?, RateLimiter.setBucket_get?, if_pos rfl, if_pos rfl]

theorem checkLocal (h : SameBucketAt key rl rl') (capacity refillRate now : ℚ) :
    (rl.checkLocal key capacity refillRate now).1 = (rl'.checkLocal key capacity refillRate now).1 ∧
      SameBucketAt key (rl.checkLocal key capacity refillRate now).2
        (rl'.checkLocal key capacity refillRate now).2 := by
  unfold RateLimiter.checkLocal
  dsimp only
  rw [h.held]
  split
  · exact ⟨rfl, h.setBucket _⟩
  · split
    · refine ⟨rfl, ?_⟩
      split
      · exact h.setBucket _
      · exact h
    · exact ⟨rfl, h.setBucket _⟩

/-- **A limiter decides by what it holds under the key**, and keeps the same there. -/
theorem check (tenantId bucket : Str) (h : SameBucketAt (rateLimitKey tenantId bucket) rl rl')
    (limitPerMinute : ℤ) (reply : Option ScriptReply) (now : ℚ) :
    (rl.check tenantId bucket limitPerMinute reply now).1 =
        (rl'.check tenantId bucket limitPerMinute reply now).1 ∧
      SameBucketAt (rateLimitKey tenantId bucket)
        (rl.check tenantId bucket limitPerMinute reply now).2
        (rl'.check tenantId bucket limitPerMinute reply now).2 := by
  cases reply with
  | some reply => exact ⟨rfl, h⟩
  | none =>
      have hcap : rl.capacity limitPerMinute = rl'.capacity limitPerMinute := by
        rw [RateLimiter.capacity, RateLimiter.capacity, h.burstRatio]
      obtain ⟨hd, hs⟩ := h.checkLocal (rl'.capacity limitPerMinute) (limitPerMinute / 60) now
      unfold RateLimiter.check
      dsimp only
      rw [hcap, hd]
      exact ⟨rfl, hs⟩

end SameBucketAt

/-! ### Separation -/

section Separation

variable {ι : Type} [DecidableEq ι]

/-- Two deployments hold the same under a key, in Redis and on each replica. -/
structure SameBudget (key : Str) (s s' : Replicas ι) : Prop where
  redis : s.redis key = s'.redis key
  limiters : ∀ i, SameBucketAt key (s.limiters i) (s'.limiters i)

variable {key : Str} {s s' : Replicas ι} {k : Clocks ι} {c : LimitedCall ι}

omit [DecidableEq ι] in
theorem SameBudget.refl (key : Str) (s : Replicas ι) : SameBudget key s s :=
  ⟨rfl, fun _ => ⟨rfl, rfl⟩⟩

/-- A request under another key. -/
theorem SameBudget.ignored (h : SameBudget key s s') (hc : c.key ≠ key) :
    SameBudget key ((limits k).step s c) s' where
  redis := by
    rw [limits, Replicas.check_redis]
    split
    · exact h.redis
    · exact (Function.update_of_ne (Ne.symm hc) _ _).trans h.redis
  limiters i := by
    rw [limits, Replicas.check_limiters]
    by_cases hi : i = c.replica
    · subst hi
      rw [Function.update_self]
      exact ⟨(RateLimiter.burstRatio_check _ _ _ _ _).trans (h.limiters _).burstRatio,
        (RateLimiter.get?_check_of_ne (Ne.symm hc) _ _ _).trans (h.limiters _).held⟩
    · rw [Function.update_of_ne hi]
      exact h.limiters i

/-- A request under the key. -/
theorem SameBudget.seen (h : SameBudget c.key s s') :
    (limits k).reply s c = (limits k).reply s' c ∧
      SameBudget c.key ((limits k).step s c) ((limits k).step s' c) := by
  have hrun : s.runScript k c.replica c.now c.tenant.id c.bucket.name c.tenant.rateLimitPerMinute =
      s'.runScript k c.replica c.now c.tenant.id c.bucket.name c.tenant.rateLimitPerMinute := by
    have hredis : s.redis (rateLimitKey c.tenant.id c.bucket.name) =
        s'.redis (rateLimitKey c.tenant.id c.bucket.name) := h.redis
    rw [Replicas.runScript, Replicas.runScript, RateLimiter.capacity, RateLimiter.capacity,
      (h.limiters c.replica).burstRatio, hredis]
  have hreply : s.reply k c.replica c.now c.script c.tenant.id c.bucket.name
      c.tenant.rateLimitPerMinute = s'.reply k c.replica c.now c.script c.tenant.id c.bucket.name
        c.tenant.rateLimitPerMinute := by
    rw [Replicas.reply, Replicas.reply, hrun]
  obtain ⟨hd, hs⟩ := (h.limiters c.replica).check c.tenant.id c.bucket.name
    c.tenant.rateLimitPerMinute (s'.reply k c.replica c.now c.script c.tenant.id c.bucket.name
      c.tenant.rateLimitPerMinute) (c.now + k.monotonic c.replica)
  refine ⟨?_, ?_, fun i => ?_⟩
  · change (rateLimited ..).1 = (rateLimited ..).1
    rw [rateLimited, rateLimited, hreply]
    exact congrArg (Except.map _) hd
  · rw [limits, Replicas.check_redis, Replicas.check_redis, hrun]
    split
    · exact h.redis
    · rw [LimitedCall.key, Function.update_self, Function.update_self]
  · rw [limits, Replicas.check_limiters, Replicas.check_limiters, hreply]
    by_cases hi : i = c.replica
    · subst hi
      rw [Function.update_self, Function.update_self]
      exact hs
    · rw [Function.update_of_ne hi, Function.update_of_ne hi]
      exact h.limiters i

theorem unwinding_limits (k : Clocks ι) (tenantId : Str) (bucket : RateBucket) :
    Unwinding (limits k) (budgetOf tenantId bucket) (fun _ _ => True)
      (SameBudget (rateLimitKey tenantId bucket.name)) where
  ignored {s s' c} h _ hpart := by
    have hc : ¬ c.Within tenantId bucket := fun hc => by cases (if_pos hc).symm.trans hpart
    exact ⟨decide_eq_false hc, h.ignored fun hkey => hc (LimitedCall.key_eq_iff.mp hkey)⟩
  seen {s s' c c'} h _ hpart := by
    obtain ⟨hc, he⟩ := Option.ite_none_right_eq_some.mp hpart
    cases he
    rw [← LimitedCall.key_eq_iff.mpr hc] at h ⊢
    obtain ⟨hreply, hstep⟩ := h.seen (k := k)
    exact ⟨rfl, fun _ => hreply, hstep⟩

theorem conforms_limits (k : Clocks ι) : ∀ (cs : List (LimitedCall ι)) (s : Replicas ι),
    (limits k).Conforms (fun _ _ => True) s cs
  | [], _ => trivial
  | _ :: cs, _ => ⟨trivial, conforms_limits k cs _⟩

/-- **Each tenant has a budget of its own in each bucket.**  Whatever the replicas and Redis hold, a
tenant is told in a bucket, request by request, what it would be told if all other requests were
left out: those of other tenants, and its own in other buckets. -/
theorem buckets_separated (k : Clocks ι) (s : Replicas ι) (tenantId : Str) (bucket : RateBucket)
    (cs : List (LimitedCall ι)) :
    (limits k).heard (budgetOf tenantId bucket) s cs =
      (limits k).heard (budgetOf tenantId bucket) s
        (cs.filter fun c => decide (c.Within tenantId bucket)) := by
  have hpart : cs.filterMap (budgetOf tenantId bucket).part =
      cs.filter fun c => decide (c.Within tenantId bucket) := by
    rw [← List.filterMap_eq_filter]
    refine List.filterMap_congr fun c _ => ?_
    simp only [budgetOf, Option.guard, decide_eq_true_eq]
  rw [← hpart]
  exact ((unwinding_limits k tenantId bucket).heard_eq (.refl _ s) (conforms_limits k cs s)).1

end Separation

end DocSearch
