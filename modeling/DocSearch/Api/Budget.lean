import DocSearch.Api.RateLimited
import DocSearch.Services.Replicas

/-!
# Api — Budget

The headers that tell a tenant what it has left.  A decision is made in Redis, or by a replica that
does not hear from it, and each of them holds a bucket of its own under a key.

* `Replicas.draw_check`: a check is a draw from the buckets it reaches.
* `Served.budget`: a bucket holds what was announced, less what was drawn since.
* `remaining_exact`: the number announced is the number of requests that are sure to be allowed.

The arithmetic is exact, and so is the count of tokens that the script replies.
-/

namespace DocSearch

open CacheKeys TokenBucket

/-! ### The headers -/

/-- What `dispatch` sets on a response, `rateLimit` being the decision that the route has left on
the request. -/
def responseHeaders (requestId : Str) (rateLimit : Option RateLimitDecision) : List (Str × Str) :=
  ("X-Request-ID".toList, requestId) ::
    match rateLimit with
    | none => []
    | some decision =>
        if decision.limitPerMinute = 0 then []
        else [("X-RateLimit-Limit".toList, strInt decision.limitPerMinute),
          ("X-RateLimit-Remaining".toList, strInt (max 0 decision.remaining))]

/-- The requests that a decision announces. -/
def RateLimitDecision.announced (d : RateLimitDecision) : ℕ := d.remaining.toNat

theorem mem_responseHeaders {d : RateLimitDecision} (hl : d.limitPerMinute ≠ 0) (requestId : Str) :
    ("X-RateLimit-Remaining".toList, strNat d.announced) ∈ responseHeaders requestId (some d) := by
  have htext : strInt (max 0 d.remaining) = strNat d.announced := by
    rw [max_comm, ← Int.toNat_eq_max]
    rfl
  rw [responseHeaders, ← htext, if_neg hl]
  exact List.mem_cons_of_mem _ (List.mem_cons_of_mem _ List.mem_cons_self)

/-- `int` drops the fraction, and a negative number is not announced. -/
theorem toNat_pyInt (q : ℚ) : (pyInt q).toNat = ⌊q⌋.toNat := by
  rcases le_total 0 q with hq | hq
  · rw [pyInt, Int.tdiv_eq_ediv_of_nonneg (Rat.num_nonneg.mpr hq), Rat.floor_def']
  · have hneg : pyInt q = -(-q.num).tdiv q.den := by rw [Int.neg_tdiv, neg_neg, pyInt]
    have hint : pyInt q ≤ 0 := by
      rw [hneg]
      exact neg_nonpos.mpr (Int.tdiv_nonneg (neg_nonneg.mpr (Rat.num_nonpos.mpr hq))
        (Int.natCast_nonneg _))
    have hfloor : ⌊q⌋ ≤ 0 := Int.floor_nonpos hq
    rw [Int.toNat_eq_zero.mpr hint, Int.toNat_eq_zero.mpr hfloor]

/-! ### The buckets -/

/-- Who decides about a check. -/
inductive Decider (ι : Type) where
  | redis
  | replica (i : ι)
  deriving DecidableEq

/-- Its clock. -/
def Decider.time {ι : Type} (k : Clocks ι) (now : ℚ) : Decider ι → ℚ
  | .redis => now + k.redis
  | .replica i => now + k.monotonic i

namespace ReplicaCheck

variable {ι : Type}

def decider (c : ReplicaCheck ι) : Decider ι :=
  if c.script = .answered then .redis else .replica c.replica

/-- The check draws from a bucket of the decider: the one in Redis also when the reply is lost. -/
def Draws (c : ReplicaCheck ι) : Decider ι → Prop
  | .redis => c.script ≠ .unreachable
  | .replica i => c.replica = i ∧ c.script ≠ .answered

instance [DecidableEq ι] (c : ReplicaCheck ι) : (D : Decider ι) → Decidable (c.Draws D)
  | .redis => inferInstanceAs (Decidable (_ ≠ _))
  | .replica _ => inferInstanceAs (Decidable (_ ∧ _))

theorem draws_decider (c : ReplicaCheck ι) : c.Draws c.decider := by
  unfold decider
  split
  · rename_i h
    exact fun hu => by cases h.symm.trans hu
  · rename_i h
    exact ⟨rfl, h⟩

end ReplicaCheck

/-- The draws from a decider's bucket under a key. -/
def spent {ι : Type} [DecidableEq ι] (key : Str) (D : Decider ι) (past : List (ReplicaCheck ι)) :
    ℕ :=
  past.countP fun c => decide (c.call.key = key ∧ c.Draws D)

namespace Replicas

variable {ι : Type} [DecidableEq ι] {k : Clocks ι} {s : Replicas ι} {burstRatio : ℚ}

/-- The bucket that a decider holds under a key. -/
def bucket (s : Replicas ι) (key : Str) : Decider ι → Option (Bucket ℚ)
  | .redis => (s.redis key).map RedisHash.bucket
  | .replica i => (s.limiters i).localBuckets.get? key

/-- A key in Redis lives for two minutes from the last draw on. -/
def Expires (s : Replicas ι) : Prop :=
  ∀ key h, s.redis key = some h → h.expiresAt = h.bucket.ts + 120

/-- The bucket that a draw is made from: the one that is held, or a new one when there is none, or
its time has come. -/
def Found (held : Option (Bucket ℚ)) (capacity now : ℚ) (found : Bucket ℚ) : Prop :=
  held = some found ∨
    (found = ⟨capacity, now⟩ ∧ ∀ b, held = some b → b.ts + 120 ≤ now)

/-- The script announces the tokens that it leaves. -/
theorem tokens_tokenBucketLua (capacity rate ttl now : ℚ) (data : Option RedisHash) :
    (tokenBucketLua capacity rate 1 ttl now data).1.tokens =
      (((RedisHash.read data now).getD ⟨capacity, now⟩).draw capacity rate now).2.tokens := by
  unfold tokenBucketLua Bucket.draw Bucket.refilled
  dsimp only
  split_ifs <;> rfl

theorem found_read (capacity now : ℚ) {data : Option RedisHash}
    (hx : ∀ h, data = some h → h.expiresAt = h.bucket.ts + 120) :
    Found (data.map RedisHash.bucket) capacity now
      ((RedisHash.read data now).getD ⟨capacity, now⟩) := by
  rcases data with _ | h
  · exact .inr ⟨rfl, fun b hb => by cases hb⟩
  · by_cases hlive : now < h.expiresAt
    · have hread : RedisHash.read (some h) now = some h.bucket := by
        simp [RedisHash.read, hlive]
      rw [hread]
      exact .inl rfl
    · have hread : RedisHash.read (some h) now = none := by
        simp [RedisHash.read, not_lt.mp hlive]
      rw [hread]
      refine .inr ⟨rfl, fun b hb => ?_⟩
      cases hb
      exact hx h rfl ▸ not_lt.mp hlive

/-- **A check is a draw** from each bucket that it reaches, and its decision that of its decider. -/
theorem draw_check (hb : ∀ i, (s.limiters i).burstRatio = burstRatio) (hx : s.Expires) (i : ι)
    (now : ℚ) (script : ScriptCall) (t b : Str) {l : ℤ} (hl : 1 ≤ l) {D : Decider ι}
    (hd : (s.check k i now script t b l).1.Draws D) :
    ∃ found, Found (s.bucket (rateLimitKey t b) D) (max 5 (l * burstRatio)) (D.time k now) found ∧
      (s.check k i now script t b l).2.bucket (rateLimitKey t b) D =
        some (found.draw (max 5 (l * burstRatio)) (l / 60) (D.time k now)).2 ∧
      ((s.check k i now script t b l).1.decider = D →
        ∃ d, (s.check k i now script t b l).1.call.decision = .ok d ∧ d.limitPerMinute = l ∧
          d.allowed = (found.draw (max 5 (l * burstRatio)) (l / 60) (D.time k now)).1 ∧
          d.remaining =
            pyInt (found.draw (max 5 (l * burstRatio)) (l / 60) (D.time k now)).2.tokens) := by
  have hcap : (s.limiters i).capacity l = max 5 (l * burstRatio) := by
    rw [RateLimiter.capacity, hb]
  cases D with
  | redis =>
      have hscript : script ≠ .unreachable := hd
      refine ⟨_, found_read _ (now + k.redis) (hx (rateLimitKey t b)), ?_, fun hdecider => ?_⟩
      · rw [bucket, check_redis, if_neg hscript, Function.update_self, runScript, hcap,
          (draw_tokenBucketLua ..).2]
        rfl
      · have hans : script = .answered := by
          by_contra hne
          have : (s.check k i now script t b l).1.decider = .replica i := if_neg hne
          rw [this] at hdecider
          cases hdecider
        refine ⟨_, by rw [check_call, reply, if_pos hans]; rfl, rfl, ?_, ?_⟩
        · rw [runScript, hcap, allowed_ofReply]
          rfl
        · rw [runScript, hcap]
          exact congrArg pyInt (tokens_tokenBucketLua ..)
  | replica j =>
      obtain ⟨rfl, hscript⟩ : i = j ∧ script ≠ .answered := hd
      have hreply : s.reply k i now script t b l = none := if_neg hscript
      have hfound : (s.limiters i).found (rateLimitKey t b) l (now + k.monotonic i) =
          ((s.limiters i).localBuckets.get? (rateLimitKey t b)).getD
            ⟨max 5 (l * burstRatio), now + k.monotonic i⟩ := by
        rw [RateLimiter.found, hcap]
      refine ⟨(s.limiters i).found (rateLimitKey t b) l (now + k.monotonic i), ?_, ?_, fun _ => ?_⟩
      · rw [hfound, bucket]
        cases (s.limiters i).localBuckets.get? (rateLimitKey t b) with
        | none => exact .inr ⟨rfl, fun b hb => by cases hb⟩
        | some b => exact .inl rfl
      · rw [bucket, check_limiters, Function.update_self, hreply,
          RateLimiter.check_snd t b (rate_pos hl).ne', RateLimiter.setBucket_get?, if_pos rfl, hcap]
        rfl
      · rw [check_call, hreply, RateLimiter.check_fst, RateLimiter.tokensFound, hcap]
        by_cases hone : 1 ≤ ((s.limiters i).found (rateLimitKey t b) l
            (now + k.monotonic i)).refilled (max 5 (l * burstRatio)) (l / 60) (now + k.monotonic i)
        · have hdraw : ((s.limiters i).found (rateLimitKey t b) l (now + k.monotonic i)).draw
              (max 5 (l * burstRatio)) (l / 60) (now + k.monotonic i) = (true, _) := if_pos hone
          rw [if_pos hone]
          exact ⟨_, rfl, rfl, congrArg Prod.fst hdraw.symm,
            congrArg (fun p : Bool × Bucket ℚ => pyInt p.2.tokens) hdraw.symm⟩
        · have hdraw : ((s.limiters i).found (rateLimitKey t b) l (now + k.monotonic i)).draw
              (max 5 (l * burstRatio)) (l / 60) (now + k.monotonic i) = (false, _) := if_neg hone
          rw [if_neg hone, if_neg (rate_pos hl).ne']
          exact ⟨_, rfl, rfl, congrArg Prod.fst hdraw.symm,
            congrArg (fun p : Bool × Bucket ℚ => pyInt p.2.tokens) hdraw.symm⟩

/-- A check leaves the buckets that it does not draw from. -/
theorem bucket_check_of_not_draws {i : ι} {now : ℚ} {script : ScriptCall} {t b : Str} {l : ℤ}
    {key : Str} {D : Decider ι}
    (h : ¬ (rateLimitKey t b = key ∧ (s.check k i now script t b l).1.Draws D)) :
    (s.check k i now script t b l).2.bucket key D = s.bucket key D := by
  cases D with
  | redis =>
      rw [bucket, check_redis]
      split
      · rfl
      · rename_i hscript
        rw [Function.update_of_ne fun he => h ⟨he.symm, hscript⟩]
        rfl
  | replica j =>
      rw [bucket, check_limiters]
      by_cases hj : j = i
      · subst hj
        rw [Function.update_self]
        by_cases hans : script = .answered
        · rw [reply, if_pos hans]
          rfl
        · exact RateLimiter.get?_check_of_ne (fun he => h ⟨he.symm, rfl, hans⟩) _ _ _
      · rw [Function.update_of_ne hj]
        rfl

end Replicas

/-! ### Runs -/

section Runs

variable {ι : Type} [DecidableEq ι] {burstRatio : ℚ} {k : Clocks ι}
  {past later : List (ReplicaCheck ι)} {s : Replicas ι} {c : ReplicaCheck ι}

theorem Served.burstRatio_eq (h : Served burstRatio k past s) (i : ι) :
    (s.limiters i).burstRatio = burstRatio := (h.checks i).1.burstRatio_eq

theorem Served.expires (h : Served burstRatio k past s) : s.Expires := by
  induction h with
  | new => exact fun key hash hh => by cases hh
  | @check past s _ i now script t b l _ ih =>
      intro key hash hh
      rw [Replicas.check_redis] at hh
      split at hh
      · exact ih key hash hh
      · by_cases he : key = rateLimitKey t b
        · rw [he, Function.update_self] at hh
          cases hh
          rw [Replicas.runScript, (draw_tokenBucketLua ..).2, Bucket.draw_ts]
        · rw [Function.update_of_ne he] at hh
          exact ih key hash hh

theorem Served.cons_inv (h : Served burstRatio k (c :: past) s) :
    ∃ s₀ i now script t b l, Served burstRatio k past s₀ ∧ (∀ c ∈ past, c.now ≤ now) ∧
      c = (s₀.check k i now script t b l).1 ∧ s = (s₀.check k i now script t b l).2 := by
  cases h with
  | check h i now script t b l hnow => exact ⟨_, i, now, script, t, b, l, h, hnow, rfl, rfl⟩

theorem Served.le_now (h : Served burstRatio k (later ++ c :: past) s) :
    ∀ c' ∈ later, c.now ≤ c'.now := by
  induction later generalizing s with
  | nil => exact fun c' hc' => absurd hc' List.not_mem_nil
  | cons c₁ later ih =>
      obtain ⟨s₀, i, now, script, t, b, l, h₀, hnow, rfl, -⟩ := h.cons_inv
      intro c' hc'
      rcases List.mem_cons.mp hc' with rfl | hc'
      · exact hnow c (List.mem_append_right _ List.mem_cons_self)
      · exact ih h₀ c' hc'

theorem Served.of_append (h : Served burstRatio k (later ++ past) s) :
    ∃ s₀, Served burstRatio k past s₀ := by
  induction later generalizing s with
  | nil => exact ⟨s, h⟩
  | cons c₁ later ih =>
      obtain ⟨s₀, -, -, -, -, -, -, h₀, -⟩ := h.cons_inv
      exact ih h₀

/-- What a decider holds of a budget of `n` that was announced at a time, `between` being the checks
made since. -/
structure HoldsBudget (k : Clocks ι) (s : Replicas ι) (key : Str) (D : Decider ι) (capacity : ℚ)
    (n : ℕ) (announcedAt : ℚ) (between : List (ReplicaCheck ι)) (b : Bucket ℚ) : Prop where
  held : s.bucket key D = some b
  tokens : b.tokens ≤ capacity
  budget : n - spent key D between ≤ b.budget
  /-- While no time passes. -/
  exact : (∀ c ∈ between, c.now = announcedAt) →
    b.ts = D.time k announcedAt ∧ b.budget = n - spent key D between

variable {key : Str} {D : Decider ι} {capacity announcedAt : ℚ} {n : ℕ}
  {between : List (ReplicaCheck ι)} {b : Bucket ℚ}

/-- The bucket that the next draw is made from is as good as the one that is held. -/
theorem HoldsBudget.found (h : HoldsBudget k s key D capacity n announcedAt between b)
    {found : Bucket ℚ} {now : ℚ}
    (hf : Replicas.Found (s.bucket key D) capacity (D.time k now) found) :
    found.tokens ≤ capacity ∧ b.budget ≤ found.budget ∧
      ((∀ c ∈ between, c.now = announcedAt) → now = announcedAt → found = b) := by
  rcases hf with hf | ⟨rfl, hgone⟩
  · cases h.held.symm.trans hf
    exact ⟨h.tokens, le_rfl, fun _ _ => rfl⟩
  · refine ⟨le_rfl, Bucket.budget_mono h.tokens, fun hnow he => ?_⟩
    have hts := hgone b h.held
    rw [(h.exact hnow).1, he] at hts
    linarith

/-- A draw from a budget. -/
theorem HoldsBudget.draw (h : HoldsBudget k s key D capacity n announcedAt between b) {rate : ℚ}
    (hr : 0 ≤ rate) {s' : Replicas ι} {found : Bucket ℚ}
    (hf : Replicas.Found (s.bucket key D) capacity (D.time k c.now) found)
    (hheld : s'.bucket key D = some (found.draw capacity rate (D.time k c.now)).2)
    (hc : c.call.key = key ∧ c.Draws D) :
    HoldsBudget k s' key D capacity n announcedAt (c :: between)
      (found.draw capacity rate (D.time k c.now)).2 := by
  obtain ⟨htokens, hbudget, hsame⟩ := h.found hf
  have hspent : spent key D (c :: between) = spent key D between + 1 :=
    List.countP_cons_of_pos (decide_eq_true hc)
  refine ⟨hheld, Bucket.draw_le_capacity _ _, ?_, fun hnow => ?_⟩
  · have hleft := Bucket.budget_draw hr htokens (D.time k c.now)
    have hkept := h.budget
    omega
  · obtain ⟨hc', hbetween⟩ := List.forall_mem_cons.mp hnow
    obtain ⟨hts, hb⟩ := h.exact hbetween
    cases hsame hbetween hc'
    refine ⟨by rw [Bucket.draw_ts, hc'], ?_⟩
    rw [hc', ← hts, (Bucket.draw_at_once htokens).2, hspent]
    omega

/-- A check that draws from another bucket. -/
theorem HoldsBudget.frame (h : HoldsBudget k s key D capacity n announcedAt between b)
    {s' : Replicas ι} (hheld : s'.bucket key D = s.bucket key D)
    (hc : ¬ (c.call.key = key ∧ c.Draws D)) :
    HoldsBudget k s' key D capacity n announcedAt (c :: between) b := by
  have hspent : spent key D (c :: between) = spent key D between :=
    List.countP_cons_of_neg (by rwa [decide_eq_true_eq])
  refine ⟨hheld.trans h.held, h.tokens, hspent ▸ h.budget, fun hnow => ?_⟩
  rw [hspent]
  exact h.exact (List.forall_mem_cons.mp hnow).2

/-- **The budget of a run**: what a check has announced, less what was drawn since. -/
theorem Served.budget (h : Served burstRatio k (later ++ c :: past) s)
    (hl : 1 ≤ c.call.limitPerMinute) (hquota : ∀ c' ∈ later, c'.call.key = c.call.key →
      c'.call.limitPerMinute = c.call.limitPerMinute) :
    ∃ d b, c.call.decision = .ok d ∧ d.limitPerMinute = c.call.limitPerMinute ∧
      HoldsBudget k s c.call.key c.decider (max 5 (c.call.limitPerMinute * burstRatio)) d.announced
        c.now later b := by
  induction later generalizing s with
  | nil =>
      obtain ⟨s₀, i, now, script, t, b, l, h₀, -, rfl, rfl⟩ := h.cons_inv
      obtain ⟨found, -, hheld, hd⟩ := Replicas.draw_check h₀.burstRatio_eq h₀.expires i now script t
        b hl (ReplicaCheck.draws_decider _)
      obtain ⟨d, hok, hlimit, -, hrest⟩ := hd rfl
      have hannounced : d.announced = (found.draw (max 5 (l * burstRatio)) (l / 60)
          ((s₀.check k i now script t b l).1.decider.time k now)).2.budget := by
        rw [RateLimitDecision.announced, hrest, toNat_pyInt]
        rfl
      exact ⟨d, _, hok, hlimit, hheld, Bucket.draw_le_capacity _ _, hannounced ▸ Nat.sub_le _ _,
        fun _ => ⟨Bucket.draw_ts _ _, hannounced.symm⟩⟩
  | cons c' later ih =>
      obtain ⟨s₀, i, now, script, t, b, l, h₀, hnow, rfl, rfl⟩ := h.cons_inv
      obtain ⟨hlimit, hquota⟩ := List.forall_mem_cons.mp hquota
      obtain ⟨d, b₀, hok, hdl, hkept⟩ := ih h₀ hquota
      refine ⟨d, ?_⟩
      by_cases hc : rateLimitKey t b = c.call.key ∧
          (s₀.check k i now script t b l).1.Draws c.decider
      · obtain rfl : l = c.call.limitPerMinute := hlimit hc.1
        obtain ⟨found, hf, hheld, -⟩ :=
          Replicas.draw_check h₀.burstRatio_eq h₀.expires i now script t b hl hc.2
        rw [hc.1] at hf hheld
        exact ⟨_, hok, hdl, hkept.draw (rate_pos hl).le hf hheld hc⟩
      · exact ⟨b₀, hok, hdl, hkept.frame (Replicas.bucket_check_of_not_draws hc) hc⟩

/-- A later check of the same decider draws from the budget that is left. -/
theorem Served.later_draw {newer between : List (ReplicaCheck ι)} {c' : ReplicaCheck ι}
    {d : RateLimitDecision} (h : Served burstRatio k (newer ++ c' :: between ++ c :: past) s)
    (hl : 1 ≤ c.call.limitPerMinute)
    (hquota : ∀ x ∈ newer ++ c' :: between, x.call.key = c.call.key →
      x.call.limitPerMinute = c.call.limitPerMinute)
    (hok : c.call.decision = .ok d) (hkey : c'.call.key = c.call.key)
    (hdecider : c'.decider = c.decider) :
    ∃ (found b : Bucket ℚ), found.tokens ≤ max 5 (c.call.limitPerMinute * burstRatio) ∧
      b.budget ≤ found.budget ∧ d.announced - spent c.call.key c.decider between ≤ b.budget ∧
      (c'.now = c.now → found.ts = c.decider.time k c.now ∧
        found.budget = d.announced - spent c.call.key c.decider between) ∧
      c'.call.isAllowed = (found.draw (max 5 (c.call.limitPerMinute * burstRatio))
        (c.call.limitPerMinute / 60) (c.decider.time k c'.now)).1 := by
  rw [List.append_assoc] at h
  obtain ⟨s₁, h₁⟩ := h.of_append
  obtain ⟨s₀, i, now, script, t, b, l, h₀, hnow, rfl, rfl⟩ := h₁.cons_inv
  obtain ⟨d', b₀, hok', -, hkept⟩ := h₀.budget hl fun c' hc' =>
    hquota c' (List.mem_append_right _ (List.mem_cons_of_mem _ hc'))
  cases hok.symm.trans hok'
  obtain rfl : l = c.call.limitPerMinute :=
    hquota _ (List.mem_append_right _ List.mem_cons_self) hkey
  obtain ⟨found, hf, -, hd⟩ := Replicas.draw_check h₀.burstRatio_eq h₀.expires i now script t b hl
    (hdecider ▸ ReplicaCheck.draws_decider _)
  obtain ⟨d', hok', -, hallowed, -⟩ := hd hdecider
  rw [show rateLimitKey t b = c.call.key from hkey] at hf
  obtain ⟨htokens, hbudget, hsame⟩ := hkept.found hf
  refine ⟨found, b₀, htokens, hbudget, hkept.budget, fun he => ?_, ?_⟩
  · have hbetween : ∀ c' ∈ between, c'.now = c.now := fun c' hc' =>
      le_antisymm (he ▸ hnow c' (List.mem_append_left _ hc')) (h₀.le_now c' hc')
    cases hsame hbetween he
    exact hkept.exact hbetween
  · rw [CheckCall.isAllowed, hok']
    exact hallowed

/-- The number of requests that a response announces, `later` being the checks made after it, the
newest first. -/
structure ExactBudget (c : ReplicaCheck ι) (d : RateLimitDecision) (later : List (ReplicaCheck ι)) :
    Prop where
  header : ∀ requestId, ("X-RateLimit-Remaining".toList, strNat d.announced) ∈
    responseHeaders requestId (some d)
  /-- That many are allowed, whenever they are made. -/
  within : ∀ newer c' between, later = newer ++ c' :: between → c'.call.key = c.call.key →
    c'.decider = c.decider → spent c.call.key c.decider between < d.announced →
    c'.call.isAllowed = true
  /-- No more are allowed at once. -/
  beyond : ∀ newer c' between, later = newer ++ c' :: between → c'.call.key = c.call.key →
    c'.decider = c.decider → c'.now = c.now → d.announced ≤ spent c.call.key c.decider between →
    c'.call.isAllowed = false

/-- **The number announced is exact.**  The header of a response tells how many of the requests to
come are sure to be allowed by the one that has decided about it, Redis or the replica itself: that
many draws are granted, whenever they are made, and no more than that if no time passes. -/
theorem remaining_exact (h : Served burstRatio k (later ++ c :: past) s)
    (hl : 1 ≤ c.call.limitPerMinute)
    (hquota : ∀ c' ∈ later, c'.call.key = c.call.key →
      c'.call.limitPerMinute = c.call.limitPerMinute) :
    ∃ d, c.call.decision = .ok d ∧ ExactBudget c d later := by
  obtain ⟨d, -, hok, hdl, -⟩ := h.budget hl hquota
  have hne : d.limitPerMinute ≠ 0 := hdl ▸ (Int.lt_of_lt_of_le Int.zero_lt_one hl).ne'
  refine ⟨d, hok, mem_responseHeaders hne, fun newer c' between he hkey hdecider hlt => ?_,
    fun newer c' between he hkey hdecider hnow hle => ?_⟩
  · subst he
    obtain ⟨found, b, htokens, hbudget, hkept, -, hallowed⟩ :=
      h.later_draw hl hquota hok hkey hdecider
    rw [hallowed]
    exact Bucket.draw_of_budget (rate_pos hl).le htokens (by omega) _
  · subst he
    obtain ⟨found, b, htokens, -, -, hexact, hallowed⟩ := h.later_draw hl hquota hok hkey hdecider
    obtain ⟨hts, hbudget⟩ := hexact hnow
    rw [hallowed, hnow, ← hts, Bool.eq_false_iff, ne_eq, (Bucket.draw_at_once htokens).1]
    omega

end Runs

namespace Sample

def replicaClocks : Clocks Bool := ⟨1000, fun i => if i then 1 else 0⟩

/-- A check that Redis answers, one that it answers to another replica in the same instant, and a
third whose reply is lost. -/
def announcedRun : List (ReplicaCheck Bool) × Replicas Bool :=
  let first := (Replicas.new configuredBurstRatio).check replicaClocks false 0 .answered acme
    "search".toList 60
  let second := first.2.check replicaClocks true 0 .answered acme "search".toList 60
  let third := second.2.check replicaClocks false 1 .lost acme "search".toList 60
  ([third.1, second.1, first.1], third.2)

theorem served_announcedRun :
    Served configuredBurstRatio replicaClocks announcedRun.1 announcedRun.2 := by
  refine .check (.check (.check .new false 0 .answered acme _ 60 fun c hc => ?_)
    true 0 .answered acme _ 60 fun c hc => ?_) false 1 .lost acme _ 60 fun c hc => ?_
  all_goals revert c; decide +kernel

/-- The first of them. -/
def announcing : ReplicaCheck Bool := announcedRun.1.getLast (by decide +kernel)

theorem remaining_exact_sample : ∃ d, announcing.call.decision = .ok d ∧
    ExactBudget announcing d (announcedRun.1.take 2) :=
  remaining_exact (show Served configuredBurstRatio replicaClocks
    (announcedRun.1.take 2 ++ announcing :: []) announcedRun.2 from served_announcedRun)
    (by decide +kernel) (by decide +kernel)

end Sample

end DocSearch
