import DocSearch.Services.RateLimiter

/-!
# Services — RetryAfter

What `_check_local` reports to a tenant that it refuses: the time until the bucket under its key is
due, which further refused checks do not move.

* `Checks.waiting`: the refused checks of a run leave the bucket due at the time it was due at.
* `Checks.polled`: the check after them is decided by that time.
-/

namespace DocSearch

open CacheKeys TokenBucket

namespace CheckCall

/-- A check that the process decides by itself, under a key. -/
def IsLocalAt (c : CheckCall) (k : Str) : Prop := c.isLocal = true ∧ c.key = k

/-- The request was refused. -/
def isDenied (c : CheckCall) : Bool :=
  match c.decision with
  | .ok d => !d.allowed
  | .error _ => false

end CheckCall

/-! ### Until the bucket is due -/

section Key

variable {burstRatio : ℚ} {past later newer older run : List CheckCall} {rl : RateLimiter}
  {c : CheckCall} {k : Str} {limit : ℤ} {due : ℚ}

/-- The last call of a run. -/
theorem Checks.cons_inv (h : Checks burstRatio (c :: run) rl) :
    ∃ rl₀, Checks burstRatio run rl₀ ∧
      (rl₀.check c.tenantId c.bucket c.limitPerMinute c.reply c.now).1 = c.decision ∧
      (rl₀.check c.tenantId c.bucket c.limitPerMinute c.reply c.now).2 = rl ∧
      (c.isLocal = true → ∀ c' ∈ run, c'.isLocal = true → c'.now ≤ c.now) := by
  cases h with
  | check h t b l reply now hnow =>
      exact ⟨_, h, rfl, rfl, fun hloc => hnow (Option.isNone_iff_eq_none.mp hloc)⟩

theorem Checks.of_append : ∀ {newer : List CheckCall} {rl : RateLimiter},
    Checks burstRatio (newer ++ run) rl → ∃ rl₀, Checks burstRatio run rl₀
  | [], rl, h => ⟨rl, h⟩
  | _ :: _, _, h =>
      have ⟨_, h₀, _⟩ := h.cons_inv
      h₀.of_append

/-- The bucket under the key is due at a time, and was counted at one of the calls. -/
def Waiting (k : Str) (limit : ℤ) (due : ℚ) (run : List CheckCall) (rl : RateLimiter) : Prop :=
  ∃ b, rl.localBuckets.get? k = some b ∧ b.due (limit / 60 : ℚ) = due ∧
    ∃ c ∈ run, c.isLocal = true ∧ c.now = b.ts

/-- A refusal reports the time until the bucket is due. -/
theorem Checks.waiting_of_denied (h : Checks burstRatio (c :: past) rl)
    (hl : 1 ≤ c.limitPerMinute) (hloc : c.isLocal = true) {d : RateLimitDecision}
    (hd : c.decision = .ok d) (hdenied : d.allowed = false) :
    ∃ r, d.retryAfterSeconds = .finite r ∧ 0 < r ∧
      Waiting c.key c.limitPerMinute (c.now + r) (c :: past) rl := by
  obtain ⟨rl₀, -, hdec, rfl, -⟩ := h.cons_inv
  obtain ⟨t, b, l, reply, now, decision⟩ := c
  obtain rfl : reply = none := Option.isNone_iff_eq_none.mp hloc
  dsimp only at hdec hd hl
  have hrate := rate_pos hl
  rw [hd, RateLimiter.check_fst, if_neg hrate.ne'] at hdec
  split_ifs at hdec with hone
  · rw [← Except.ok.inj hdec] at hdenied
    cases hdenied
  · have hdraw : ((rl₀.found (rateLimitKey t b) l now).draw (rl₀.capacity l) (l / 60) now).2 =
        ⟨rl₀.tokensFound (rateLimitKey t b) l now, now⟩ := congrArg Prod.snd (if_neg hone)
    rw [← Except.ok.inj hdec, RateLimiter.check_snd t b hrate.ne' now, hdraw]
    refine ⟨_, rfl, div_pos (sub_pos.mpr (not_le.mp hone)) hrate, ⟨_, now⟩, ?_, rfl, _,
      List.mem_cons_self, rfl, rfl⟩
    rw [RateLimiter.setBucket_get?]
    exact if_pos rfl

/-- Other checks leave the bucket. -/
theorem Waiting.frame {rl₀ : RateLimiter} (hw : Waiting k limit due run rl₀)
    (hother : ¬ c.IsLocalAt k)
    (hrl : (rl₀.check c.tenantId c.bucket c.limitPerMinute c.reply c.now).2 = rl) :
    Waiting k limit due (c :: run) rl := by
  obtain ⟨b, hb, hdue, c', hc', hts⟩ := hw
  refine ⟨b, ?_, hdue, c', List.mem_cons_of_mem _ hc', hts⟩
  rw [← hrl, ← hb]
  cases hr : c.reply with
  | some reply => rfl
  | none =>
      have hloc : c.isLocal = true := Option.isNone_iff_eq_none.mpr hr
      exact RateLimiter.get?_check_of_ne (fun hk => hother ⟨hloc, hk.symm⟩) _ _ _

/-- A check of the key is allowed if and only if the bucket is due, and leaves it due at the same
time if it is not. -/
theorem Waiting.check {rl₀ : RateLimiter} (hw : Waiting k limit due run rl₀) (hl : 1 ≤ limit)
    (hc : c.IsLocalAt k) (hlimit : c.limitPerMinute = limit)
    (hcheck : (rl₀.check c.tenantId c.bucket c.limitPerMinute c.reply c.now).1 = c.decision)
    (hrl : (rl₀.check c.tenantId c.bucket c.limitPerMinute c.reply c.now).2 = rl)
    (hnow : ∀ c' ∈ run, c'.isLocal = true → c'.now ≤ c.now) :
    (due ≤ c.now → c.isAllowed = true) ∧
      (c.now < due → c.isDenied = true ∧ Waiting k limit due (c :: run) rl) := by
  obtain ⟨b₀, hb, rfl, c', hc', hloc', hts⟩ := hw
  obtain ⟨t, b, l, reply, now, decision⟩ := c
  obtain ⟨hloc, rfl⟩ := hc
  obtain rfl : reply = none := Option.isNone_iff_eq_none.mp hloc
  obtain rfl : l = limit := hlimit
  dsimp only at hcheck hrl hnow ⊢
  subst hcheck
  have hrate := rate_pos hl
  have hle : b₀.ts ≤ now := hts ▸ hnow c' hc' hloc'
  have hfound : rl₀.found (rateLimitKey t b) l now = b₀ := congrArg (Option.getD · _) hb
  have htokens : rl₀.tokensFound (rateLimitKey t b) l now =
      b₀.refilled (rl₀.capacity l) (l / 60) now := by rw [RateLimiter.tokensFound, hfound]
  have hone := Bucket.one_le_refilled (rl₀.one_le_capacity l) hrate hle
  constructor
  · intro hdue
    rw [RateLimiter.isAllowed_check, hfound,
      Bucket.draw_iff_due (rl₀.one_le_capacity l) hrate hle]
    exact hdue
  · intro hdue
    have hlt := mt hone.mp (not_le.mpr hdue)
    refine ⟨?_, (b₀.draw (rl₀.capacity l) (l / 60) now).2, ?_,
      Bucket.due_refused (rl₀.one_le_capacity l) hrate hle ?_, _, List.mem_cons_self, rfl,
      (Bucket.draw_ts b₀ now).symm⟩
    · rw [CheckCall.isDenied, RateLimiter.check_fst, htokens, if_neg hlt, if_neg hrate.ne']
      rfl
    · rw [← hrl, RateLimiter.check_snd t b hrate.ne', hfound, RateLimiter.setBucket_get?]
      exact if_pos rfl
    · rw [Bucket.draw_fst]
      exact decide_eq_false hlt

/-- **Polling**: the checks made before the bucket is due do not delay it. -/
theorem Checks.waiting (hl : 1 ≤ limit)
    (start : ∀ {rl₀ : RateLimiter}, Checks burstRatio run rl₀ → Waiting k limit due run rl₀) :
    ∀ {later : List CheckCall} {rl : RateLimiter}, Checks burstRatio (later ++ run) rl →
      (∀ c ∈ later, c.IsLocalAt k → c.limitPerMinute = limit) →
      (∀ c ∈ later, c.IsLocalAt k → c.now < due) → Waiting k limit due (later ++ run) rl
  | [], _, h, _, _ => start h
  | c :: later, _, h, hlimit, hbefore => by
      obtain ⟨rl₀, h₀, hcheck, hrl, hnow⟩ := h.cons_inv
      have hw := h₀.waiting hl start (fun c' hc' => hlimit c' (List.mem_cons_of_mem _ hc'))
        fun c' hc' => hbefore c' (List.mem_cons_of_mem _ hc')
      by_cases hc : c.IsLocalAt k
      · have hlt := hbefore c List.mem_cons_self hc
        have heq := hlimit c List.mem_cons_self hc
        exact ((hw.check hl hc heq hcheck hrl (hnow hc.1)).2 hlt).2
      · exact hw.frame hc hrl

/-- The check after them is allowed when the bucket is due, and refused before. -/
theorem Checks.polled (hl : 1 ≤ limit)
    (start : ∀ {rl₀ : RateLimiter}, Checks burstRatio run rl₀ → Waiting k limit due run rl₀)
    (h : Checks burstRatio (newer ++ c :: (older ++ run)) rl)
    (hlimit : ∀ c' ∈ c :: older, c'.IsLocalAt k → c'.limitPerMinute = limit)
    (hbefore : ∀ c' ∈ older, c'.IsLocalAt k → c'.now < due) (hc : c.IsLocalAt k) :
    (due ≤ c.now → c.isAllowed = true) ∧ (c.now < due → c.isDenied = true) := by
  obtain ⟨rl₁, h₁⟩ := h.of_append
  obtain ⟨rl₀, h₀, hcheck, hrl, hnow⟩ := h₁.cons_inv
  have hw := h₀.waiting hl start (fun c' hc' => hlimit c' (List.mem_cons_of_mem _ hc')) hbefore
  exact (hw.check hl hc (hlimit c List.mem_cons_self hc) hcheck hrl (hnow hc.1)).imp_right
    fun hdenied hlt => (hdenied hlt).1

/-- A check before the time is preceded by such checks only. -/
theorem Checks.denied_before (hl : 1 ≤ limit)
    (start : ∀ {rl₀ : RateLimiter}, Checks burstRatio run rl₀ → Waiting k limit due run rl₀)
    (h : Checks burstRatio (later ++ run) rl)
    (hlimit : ∀ c' ∈ later, c'.IsLocalAt k → c'.limitPerMinute = limit) (hm : c ∈ later)
    (hc : c.IsLocalAt k) (hlt : c.now < due) : c.isDenied = true := by
  obtain ⟨newer, older, rfl⟩ := List.append_of_mem hm
  rw [List.append_assoc, List.cons_append] at h
  refine (h.polled hl start (fun c' hc' => hlimit c' (List.mem_append_right _ hc'))
    (fun c' hc' hat => ?_) hc).2 hlt
  obtain ⟨rl₁, h₁⟩ := h.of_append
  obtain ⟨-, -, -, -, hnow⟩ := h₁.cons_inv
  exact (hnow hc.1 c' (List.mem_append_left _ hc') hat.1).trans_lt hlt

end Key

/-! ### A tenant by itself -/

namespace RateLimiter

/-- The local checks of a tenant at the times, the latest first. -/
def polls (burstRatio : ℚ) (tenantId bucket : Str) (limit : ℤ) :
    List ℚ → List CheckCall × RateLimiter
  | [] => ([], .new burstRatio)
  | now :: before =>
      let run := polls burstRatio tenantId bucket limit before
      (⟨tenantId, bucket, limit, none, now,
          (run.2.check tenantId bucket limit none now).1⟩ :: run.1,
        (run.2.check tenantId bucket limit none now).2)

variable {burstRatio : ℚ} {tenantId bucket : Str} {limit : ℤ}

theorem now_of_mem_polls : ∀ {times : List ℚ},
    ∀ c ∈ (polls burstRatio tenantId bucket limit times).1, c.now ∈ times
  | [], _, hc => by cases hc
  | _ :: _, _, hc => by
      rcases List.mem_cons.mp hc with rfl | hc
      · exact List.mem_cons_self
      · exact List.mem_cons_of_mem _ (now_of_mem_polls _ hc)

theorem checks_polls (burstRatio : ℚ) (tenantId bucket : Str) (limit : ℤ) :
    ∀ {times : List ℚ}, times.Pairwise (· ≥ ·) →
    Checks burstRatio (polls burstRatio tenantId bucket limit times).1
      (polls burstRatio tenantId bucket limit times).2
  | [], _ => .new
  | now :: _, h =>
      have ⟨hhead, htail⟩ := List.pairwise_cons.mp h
      .check (checks_polls burstRatio tenantId bucket limit htail) tenantId bucket limit none now
        fun _ c hc _ => hhead _ (now_of_mem_polls c hc)

end RateLimiter

end DocSearch
