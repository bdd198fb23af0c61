import DocSearch.Services.RateLimiter

/-!
# Services — ScriptClock

The script takes a negative elapsed time for none, but stores the earlier reading, so that the time
gone back is earned a second time.

* `allowedBy_le`: what is allowed is at most a full bucket, and the refill of all that the clock has
  moved forward.
* `none_minted_iff`: the readings that mint no token, whatever the quota, are those without a dip.
-/

namespace DocSearch

open TokenBucket Clock

/-- What the script replies at each of the readings of `TIME`. -/
def scriptReplies (capacity refillRate ttl : ℚ) : Option RedisHash → List ℚ → List ScriptReply
  | _, [] => []
  | data, now :: nows =>
      let (reply, data) := tokenBucketLua capacity refillRate 1 ttl now data
      reply :: scriptReplies capacity refillRate ttl (some data) nows

/-- The executions that were allowed. -/
def allowedBy (replies : List ScriptReply) : ℕ := replies.countP fun r => decide (r.allowed = 1)

/-- Each execution comes before the key that the last one left expires. -/
def KeyKept (ttl : ℚ) (times : List ℚ) : Prop := times.IsChain fun last now => now < last + ttl

/-- **No token is minted**, whatever the quota, and whatever the key held before. -/
def NoneMinted (first : ℚ) (later : List ℚ) : Prop :=
  ∀ (capacity refillRate ttl : ℚ) (data : Option RedisHash), 1 ≤ capacity → 0 < refillRate →
    KeyKept ttl (first :: later) →
    (allowedBy (scriptReplies capacity refillRate ttl data (first :: later)) : ℚ) ≤
      capacity + refillRate * (peak first later - first)

section Script

variable {capacity refillRate ttl now : ℚ} {data : Option RedisHash}

/-- An execution is a draw from the bucket it finds, a new one being full. -/
theorem draw_tokenBucketLua (capacity refillRate ttl now : ℚ) (data : Option RedisHash) :
    decide ((tokenBucketLua capacity refillRate 1 ttl now data).1.allowed = 1) =
        (((RedisHash.read data now).getD ⟨capacity, now⟩).draw capacity refillRate now).1 ∧
      (tokenBucketLua capacity refillRate 1 ttl now data).2 =
        ⟨(((RedisHash.read data now).getD ⟨capacity, now⟩).draw capacity refillRate now).2,
          now + ttl⟩ := by
  unfold tokenBucketLua Bucket.draw Bucket.refilled
  dsimp only
  split_ifs <;> exact ⟨rfl, rfl⟩

theorem allowedBy_cons (capacity refillRate ttl now : ℚ) (data : Option RedisHash) (nows : List ℚ) :
    allowedBy (scriptReplies capacity refillRate ttl data (now :: nows)) =
      (if (((RedisHash.read data now).getD ⟨capacity, now⟩).draw capacity refillRate now).1
        then 1 else 0) +
      allowedBy (scriptReplies capacity refillRate ttl
        (some ⟨(((RedisHash.read data now).getD ⟨capacity, now⟩).draw capacity refillRate now).2,
          now + ttl⟩) nows) := by
  obtain ⟨hallowed, hleft⟩ := draw_tokenBucketLua capacity refillRate ttl now data
  rw [scriptReplies, allowedBy, List.countP_cons, hallowed, hleft, add_comm]
  rfl

/-- **On a key that is kept**, what the script allows is what the bucket grants. -/
theorem allowedBy_replies (capacity refillRate : ℚ) : ∀ {b : Bucket ℚ} {ts : ℚ} (times : List ℚ),
    b.ts = ts → KeyKept ttl (ts :: times) →
    allowedBy (scriptReplies capacity refillRate ttl (some ⟨b, ts + ttl⟩) times) =
      b.grants capacity refillRate times
  | _, _, [], _, _ => rfl
  | b, ts, now :: nows, hts, hk => by
      obtain ⟨hlive, hk⟩ := List.isChain_cons_cons.mp hk
      have hread : RedisHash.read (some ⟨b, ts + ttl⟩) now = some b := by
        simp [RedisHash.read, hlive]
      rw [allowedBy_cons, hread, Option.getD_some, Bucket.grants,
        allowedBy_replies capacity refillRate nows (b.draw_ts now) hk]

/-- **Whatever the clock does**, no more is allowed than a full bucket and the refill of all that it
has moved forward. -/
theorem allowedBy_le (hc : 1 ≤ capacity) (hr : 0 ≤ refillRate) (data : Option RedisHash) {first : ℚ}
    {later : List ℚ} (hk : KeyKept ttl (first :: later)) :
    (allowedBy (scriptReplies capacity refillRate ttl data (first :: later)) : ℚ) ≤
      capacity + climb first later * refillRate := by
  generalize hb : (RedisHash.read data first).getD ⟨capacity, first⟩ = b
  have hts : (b.draw capacity refillRate first).2.ts = first := b.draw_ts first
  have hpaid := b.draw_paid capacity refillRate first
  have hfull : max 0 (b.refilled capacity refillRate first) ≤ capacity :=
    max_le (zero_le_one.trans hc) (b.refilled_le first)
  have hrun := allowedBy_replies capacity refillRate later hts hk
  have hlater : ((b.draw capacity refillRate first).2.grants capacity refillRate later : ℚ) ≤
      max 0 (b.draw capacity refillRate first).2.tokens + climb first later * refillRate := by
    have hlater := Bucket.grants_le capacity hr (b.draw capacity refillRate first).2 later
    rwa [hts] at hlater
  rw [allowedBy_cons, hb, hrun, Nat.cast_add]
  linarith

end Script

/-- The key is kept when it is to live for longer than the clock climbs. -/
theorem keyKept_of_climb {ttl : ℚ} : ∀ {first : ℚ} {later : List ℚ}, climb first later < ttl →
    KeyKept ttl (first :: later)
  | _, [], _ => List.isChain_singleton _
  | first, now :: later, h => by
      have hgain := le_max_right 0 (now - first)
      have hnonneg := climb_nonneg now later
      have hlost := le_max_left 0 (now - first)
      rw [climb] at h
      exact List.isChain_cons_cons.mpr ⟨by linarith, keyKept_of_climb (by linarith)⟩

/-- **Exactly the readings without a dip** mint nothing.  With one, a bucket of one token that
refills in the time the clock climbs grants a second. -/
theorem none_minted_iff (first : ℚ) (later : List ℚ) :
    NoneMinted first later ↔ NoDip (first :: later) := by
  rw [← climb_eq_iff]
  constructor
  · intro h
    by_contra hne
    have hlt : peak first later - first < climb first later :=
      (peak_sub_le_climb first later).lt_of_ne' hne
    have hpos : 0 < climb first later := (sub_nonneg.mpr le_peak).trans_lt hlt
    have hkept : KeyKept (climb first later + 1) (first :: later) := keyKept_of_climb (lt_add_one _)
    have hbound := h 1 (climb first later)⁻¹ (climb first later + 1) none le_rfl
      (inv_pos.mpr hpos) hkept
    -- the first execution empties the bucket
    have hfirst : (Bucket.mk 1 first).draw 1 (climb first later)⁻¹ first =
        (true, Bucket.mk (0 : ℚ) first) := by
      simp [Bucket.draw, Bucket.refilled]
    have hgrants : 1 ≤ (Bucket.mk 0 first).grants 1 (climb first later)⁻¹ later :=
      Bucket.one_le_grants le_rfl _ later zero_lt_one
        (by rw [zero_add, mul_inv_cancel₀ hpos.ne'])
    have hsecond : (1 : ℚ) ≤ (Bucket.mk 0 first).grants 1 (climb first later)⁻¹ later := by
      exact_mod_cast hgrants
    have hquot : (climb first later)⁻¹ * (peak first later - first) < 1 := by
      rw [inv_mul_lt_iff₀ hpos, mul_one]
      exact hlt
    rw [allowedBy_cons, show RedisHash.read none first = none from rfl, Option.getD_none, hfirst,
      allowedBy_replies _ _ later rfl hkept, if_pos rfl] at hbound
    push_cast at hbound
    linarith
  · intro he capacity refillRate ttl data hc hr hk
    rw [← he, mul_comm refillRate]
    exact allowedBy_le hc hr.le data hk

namespace Sample

/-- **A token is minted.**  A clock at 0, 1, 0 and 1 allows a second execution for half a token. -/
theorem minted_by_a_dip : ¬ ∀ first later, NoneMinted first later := fun h =>
  absurd (h 0 [1, 0, 1] 1 (1 / 2) 120 none le_rfl (by norm_num)
    (keyKept_of_climb (by decide +kernel))) (by decide +kernel)

end Sample

end DocSearch
