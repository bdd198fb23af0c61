import DocSearch.Support.Clock
import Mathlib.Algebra.Order.Field.Basic
import Mathlib.Algebra.Order.Floor.Ring
import Mathlib.Data.List.Count
import Mathlib.Tactic.FieldSimp
import Mathlib.Tactic.Linarith
import Mathlib.Tactic.Ring

/-!
# Support — TokenBucket

A bucket that holds up to `capacity` tokens and gains `rate` of them in a unit of time.  A draw
takes one token when there is one.

* `Drawn h b`: the draws of `h`, the newest first, have left the bucket `b`.
* `Drawn.tokens`: it holds between no and `capacity` tokens.
* `Drawn.window`: the draws granted in a window are at most `capacity`, and `rate` times its length.
* `Bucket.draw_iff_due`, `Bucket.due_refused`: a draw is granted from the time on that the bucket
  is due at, and a refused one does not move that time.
* `Bucket.draw_of_budget`, `Bucket.draw_at_once`: the tokens are a budget of draws that are granted
  whenever they are made, and exactly that budget when no time passes.
* `Bucket.grants_le`, `Bucket.one_le_grants`: by a clock that steps back, the bucket gains `rate`
  times what the clock climbs, and that much is granted.
-/

namespace DocSearch.TokenBucket

open Clock

variable {K : Type*} [Field K] [LinearOrder K]

/-- The tokens, and when they were counted. -/
structure Bucket (K : Type*) where
  tokens : K
  ts : K
  deriving DecidableEq

/-- The tokens there are by now. -/
def Bucket.refilled (capacity rate : K) (b : Bucket K) (now : K) : K :=
  min capacity (b.tokens + max 0 (now - b.ts) * rate)

/-- A draw, and whether it is granted. -/
def Bucket.draw (capacity rate : K) (b : Bucket K) (now : K) : Bool × Bucket K :=
  if 1 ≤ b.refilled capacity rate now then (true, ⟨b.refilled capacity rate now - 1, now⟩)
  else (false, ⟨b.refilled capacity rate now, now⟩)

/-- The draws of a list, at times that do not decrease, from a bucket that was full. -/
inductive Drawn (capacity rate : K) : List (K × Bool) → Bucket K → Prop where
  | full (now : K) : Drawn capacity rate [] ⟨capacity, now⟩
  | draw {h b} {now : K} (hd : Drawn capacity rate h b) (hn : b.ts ≤ now) :
      Drawn capacity rate ((now, (b.draw capacity rate now).1) :: h) (b.draw capacity rate now).2

/-- The draws granted from `start` on. -/
def grantedSince (h : List (K × Bool)) (start : K) : ℕ :=
  h.countP fun p => p.2 && decide (start ≤ p.1)

/-- The draws granted between `start` and `stop`. -/
def granted (h : List (K × Bool)) (start stop : K) : ℕ :=
  h.countP fun p => p.2 && decide (start ≤ p.1) && decide (p.1 ≤ stop)

variable {capacity rate : K} {h : List (K × Bool)} {b : Bucket K}

theorem Bucket.refilled_le (b : Bucket K) (now : K) : b.refilled capacity rate now ≤ capacity :=
  min_le_left _ _

@[simp] theorem Bucket.draw_ts (b : Bucket K) (now : K) : (b.draw capacity rate now).2.ts = now := by
  unfold draw; split <;> rfl

/-- What a draw takes. -/
theorem Bucket.draw_tokens (b : Bucket K) (now : K) : (b.draw capacity rate now).2.tokens =
    b.refilled capacity rate now - if (b.draw capacity rate now).1 then 1 else 0 := by
  unfold draw
  split
  · rfl
  · exact (sub_zero _).symm

theorem Bucket.draw_fst (b : Bucket K) (now : K) :
    (b.draw capacity rate now).1 = decide (1 ≤ b.refilled capacity rate now) := by
  unfold draw
  split
  · rename_i h; exact (decide_eq_true h).symm
  · rename_i h; exact (decide_eq_false h).symm

theorem Bucket.draw_refused {now : K} (h : (b.draw capacity rate now).1 = false) :
    b.refilled capacity rate now < 1 ∧
      (b.draw capacity rate now).2 = ⟨b.refilled capacity rate now, now⟩ := by
  rw [draw_fst, decide_eq_false_iff_not, not_le] at h
  exact ⟨h, by rw [draw, if_neg (not_le.mpr h)]⟩

theorem Drawn.past (hd : Drawn capacity rate h b) : ∀ p ∈ h, p.1 ≤ b.ts := by
  induction hd with
  | full now => exact fun p hp => by cases hp
  | @draw h b now _ hn ih =>
      intro p hp
      rw [Bucket.draw_ts]
      rcases List.mem_cons.mp hp with rfl | hp
      · exact le_rfl
      · exact (ih p hp).trans hn

omit [Field K] in
theorem grantedSince_eq_zero {start : K} (hp : ∀ p ∈ h, p.1 < start) : grantedSince h start = 0 := by
  refine List.countP_eq_zero.mpr fun p hm hg => ?_
  rw [Bool.and_eq_true, decide_eq_true_eq] at hg
  exact absurd hg.2 (not_le.mpr (hp p hm))

variable [IsStrictOrderedRing K]

theorem Bucket.refilled_le_add {now : K} (hn : b.ts ≤ now) :
    b.refilled capacity rate now ≤ b.tokens + (now - b.ts) * rate := by
  rw [refilled, max_eq_right (sub_nonneg.mpr hn)]
  exact min_le_right _ _

theorem Bucket.refilled_nonneg (hc : 0 ≤ capacity) (hr : 0 ≤ rate) (hb : 0 ≤ b.tokens) (now : K) :
    0 ≤ b.refilled capacity rate now :=
  le_min hc (add_nonneg hb (mul_nonneg (le_max_left _ _) hr))

/-- **The tokens stay in the bucket.** -/
theorem Drawn.tokens (hc : 0 ≤ capacity) (hr : 0 ≤ rate) (hd : Drawn capacity rate h b) :
    0 ≤ b.tokens ∧ b.tokens ≤ capacity := by
  induction hd with
  | full now => exact ⟨hc, le_rfl⟩
  | @draw h b now _ hn ih =>
      have h₀ := Bucket.refilled_nonneg hc hr ih.1 now
      have h₁ : b.refilled capacity rate now ≤ capacity := b.refilled_le now
      unfold Bucket.draw
      split
      · rename_i hone
        exact ⟨sub_nonneg.mpr hone, (sub_le_self _ zero_le_one).trans h₁⟩
      · exact ⟨h₀, h₁⟩

/-- The grants since a time and the tokens left are paid for by a full bucket and the refill. -/
theorem Drawn.potential (hr : 0 ≤ rate) (hd : Drawn capacity rate h b) :
    ∀ start ≤ b.ts, (grantedSince h start : K) + b.tokens ≤ capacity + (b.ts - start) * rate := by
  induction hd with
  | full now =>
      intro start hs
      have := mul_nonneg (sub_nonneg.mpr hs) hr
      simp only [grantedSince, List.countP_nil, Nat.cast_zero, zero_add]
      linarith
  | @draw h b now hd hn ih =>
      intro start hs
      rw [Bucket.draw_ts] at hs ⊢
      have hcount : (grantedSince ((now, (b.draw capacity rate now).1) :: h) start : K) +
          (b.draw capacity rate now).2.tokens =
            grantedSince h start + b.refilled capacity rate now := by
        rw [Bucket.draw_tokens, grantedSince, List.countP_cons, ← grantedSince]
        simp only [decide_eq_true hs, Bool.and_true, Nat.cast_add, Nat.cast_ite, Nat.cast_one,
          Nat.cast_zero]
        ring
      rw [hcount]
      rcases le_or_gt start b.ts with hle | hlt
      · have h₁ := ih start hle
        have h₂ : b.refilled capacity rate now ≤ b.tokens + (now - b.ts) * rate :=
          Bucket.refilled_le_add hn
        calc (grantedSince h start : K) + b.refilled capacity rate now
            ≤ grantedSince h start + b.tokens + (now - b.ts) * rate := by linarith
          _ ≤ capacity + (b.ts - start) * rate + (now - b.ts) * rate := by linarith
          _ = capacity + (now - start) * rate := by ring
      · -- every draw before this one came before the window
        have hzero := grantedSince_eq_zero fun p hp => (hd.past p hp).trans_lt hlt
        have h₁ : b.refilled capacity rate now ≤ capacity := b.refilled_le now
        have h₂ := mul_nonneg (sub_nonneg.mpr hs) hr
        rw [hzero, Nat.cast_zero, zero_add]
        linarith

/-- **Any window.** -/
theorem Drawn.window (hc : 0 ≤ capacity) (hr : 0 ≤ rate) (hd : Drawn capacity rate h b) {start stop : K}
    (hs : start ≤ stop) : (granted h start stop : K) ≤ capacity + (stop - start) * rate := by
  have hwindow := mul_nonneg (sub_nonneg.mpr hs) hr
  induction hd with
  | full now =>
      simp only [granted, List.countP_nil, Nat.cast_zero]
      linarith
  | @draw h b now hd hn ih =>
      by_cases hin : ((b.draw capacity rate now).1 && decide (start ≤ now) && decide (now ≤ stop)) = true
      · rw [Bool.and_eq_true, Bool.and_eq_true, decide_eq_true_eq, decide_eq_true_eq] at hin
        have hd' := hd.draw hn
        have hpot := hd'.potential hr start (by rw [Bucket.draw_ts]; exact hin.1.2)
        have htok := (hd'.tokens hc hr).1
        have hmono : granted ((now, (b.draw capacity rate now).1) :: h) start stop ≤
            grantedSince ((now, (b.draw capacity rate now).1) :: h) start :=
          List.countP_mono_left fun p _ hp => (Bool.and_eq_true _ _ ▸ hp).1
        have hmono' : (granted ((now, (b.draw capacity rate now).1) :: h) start stop : K) ≤
            grantedSince ((now, (b.draw capacity rate now).1) :: h) start := Nat.cast_le.mpr hmono
        rw [Bucket.draw_ts] at hpot
        have hlast := mul_le_mul_of_nonneg_right (sub_le_sub_right hin.2 start) hr
        linarith
      · rw [granted, List.countP_cons, if_neg hin]
        exact ih

/-! ### Waiting for a token -/

/-- The time at which the bucket holds one token. -/
def Bucket.due (rate : K) (b : Bucket K) : K := b.ts + (1 - b.tokens) / rate

/-- The refill is linear up to the first token: the capacity is not reached before it. -/
theorem Bucket.refilled_of_lt (hc : 1 ≤ capacity) {now : K} (hn : b.ts ≤ now)
    (h : b.refilled capacity rate now < 1) :
    b.refilled capacity rate now = b.tokens + (now - b.ts) * rate := by
  rw [refilled, max_eq_right (sub_nonneg.mpr hn)] at h ⊢
  refine min_eq_right (le_of_not_gt fun hlt => ?_)
  rw [min_eq_left hlt.le] at h
  exact absurd h (not_lt.mpr hc)

theorem Bucket.one_le_refilled (hc : 1 ≤ capacity) (hr : 0 < rate) {now : K} (hn : b.ts ≤ now) :
    1 ≤ b.refilled capacity rate now ↔ b.due rate ≤ now := by
  have hlinear : b.due rate ≤ now ↔ 1 ≤ b.tokens + (now - b.ts) * rate := by
    rw [due, ← le_sub_iff_add_le', div_le_iff₀ hr, sub_le_iff_le_add']
  rw [hlinear, refilled, max_eq_right (sub_nonneg.mpr hn), le_min_iff]
  exact and_iff_right hc

/-- A draw is granted from the time on that the bucket is due at. -/
theorem Bucket.draw_iff_due (hc : 1 ≤ capacity) (hr : 0 < rate) {now : K} (hn : b.ts ≤ now) :
    (b.draw capacity rate now).1 = true ↔ b.due rate ≤ now := by
  rw [draw_fst, decide_eq_true_eq, one_le_refilled hc hr hn]

/-- **A refused draw does not move the time the bucket is due at**, though it counts the tokens
anew. -/
theorem Bucket.due_refused (hc : 1 ≤ capacity) (hr : 0 < rate) {now : K} (hn : b.ts ≤ now)
    (h : (b.draw capacity rate now).1 = false) :
    (b.draw capacity rate now).2.due rate = b.due rate := by
  obtain ⟨hlt, he⟩ := draw_refused h
  rw [he, refilled_of_lt hc hn hlt]
  unfold due
  field_simp
  ring

/-! ### Draws that are sure to be granted -/

theorem Bucket.le_refilled (hr : 0 ≤ rate) (hb : b.tokens ≤ capacity) (now : K) :
    b.tokens ≤ b.refilled capacity rate now :=
  le_min hb (le_add_of_nonneg_right (mul_nonneg (le_max_left _ _) hr))

theorem Bucket.draw_le_capacity (b : Bucket K) (now : K) :
    (b.draw capacity rate now).2.tokens ≤ capacity := by
  rw [draw_tokens]
  refine (sub_le_self _ ?_).trans (b.refilled_le now)
  split
  · exact zero_le_one
  · exact le_rfl

section Budget

variable [FloorRing K]

/-- The draws that the tokens are enough for, should none be gained. -/
def Bucket.budget (b : Bucket K) : ℕ := ⌊b.tokens⌋.toNat

omit [IsStrictOrderedRing K] in
theorem Bucket.budget_mono {b b' : Bucket K} (h : b.tokens ≤ b'.tokens) : b.budget ≤ b'.budget :=
  Int.toNat_le_toNat (Int.floor_mono h)

omit [IsStrictOrderedRing K] in
theorem Bucket.budget_pos : 0 < b.budget ↔ 1 ≤ b.tokens := by
  rw [budget, Int.lt_toNat, Nat.cast_zero, Int.floor_pos]

theorem Bucket.budget_sub_one (tokens ts ts' : K) :
    (Bucket.mk (tokens - 1) ts).budget = (Bucket.mk tokens ts').budget - 1 := by
  rw [budget, Int.floor_sub_one]
  change (⌊tokens⌋ - 1).toNat = ⌊tokens⌋.toNat - 1
  omega

/-- **A draw within the budget is granted**, whenever it is made. -/
theorem Bucket.draw_of_budget (hr : 0 ≤ rate) (hb : b.tokens ≤ capacity) (h : 0 < b.budget)
    (now : K) : (b.draw capacity rate now).1 = true := by
  rw [draw_fst, decide_eq_true_eq]
  exact (budget_pos.mp h).trans (le_refilled hr hb now)

/-- It takes one from the budget at most. -/
theorem Bucket.budget_draw (hr : 0 ≤ rate) (hb : b.tokens ≤ capacity) (now : K) :
    b.budget - 1 ≤ (b.draw capacity rate now).2.budget := by
  rw [← budget_sub_one b.tokens now b.ts]
  refine budget_mono ?_
  have hle := le_refilled hr hb now
  rw [draw_tokens]
  split
  · exact sub_le_sub_right hle 1
  · exact (sub_le_self _ zero_le_one).trans (hle.trans (sub_zero _).ge)

/-- **When no time passes**, just the draws within the budget are granted. -/
theorem Bucket.draw_at_once (hb : b.tokens ≤ capacity) :
    ((b.draw capacity rate b.ts).1 = true ↔ 0 < b.budget) ∧
      (b.draw capacity rate b.ts).2.budget = b.budget - 1 := by
  have hr : b.refilled capacity rate b.ts = b.tokens := by
    rw [refilled, sub_self, max_self, zero_mul, add_zero, min_eq_right hb]
  refine ⟨by rw [draw_fst, hr, decide_eq_true_eq, budget_pos], ?_⟩
  unfold draw
  rw [hr]
  split
  · exact budget_sub_one _ _ _
  · rename_i h
    have hzero : b.budget = 0 := Nat.eq_zero_of_not_pos fun hp => h (budget_pos.mp hp)
    exact hzero.trans (by rw [hzero])

end Budget

/-! ### A clock that steps back -/

/-- How many of the draws at the times of a list are granted, whatever their order. -/
def Bucket.grants (capacity rate : K) : Bucket K → List K → ℕ
  | _, [] => 0
  | b, now :: nows =>
      (if (b.draw capacity rate now).1 then 1 else 0) +
        Bucket.grants capacity rate (b.draw capacity rate now).2 nows

/-- A draw takes from what there is the token it grants. -/
theorem Bucket.draw_paid (capacity rate : K) (b : Bucket K) (now : K) :
    ((if (b.draw capacity rate now).1 then 1 else 0 : ℕ) : K) +
      max 0 (b.draw capacity rate now).2.tokens = max 0 (b.refilled capacity rate now) := by
  rw [draw_tokens, draw_fst]
  by_cases hone : 1 ≤ b.refilled capacity rate now
  · rw [decide_eq_true hone, if_pos rfl, if_pos rfl, max_eq_right (sub_nonneg.mpr hone),
      max_eq_right (zero_le_one.trans hone), Nat.cast_one, add_sub_cancel]
  · rw [decide_eq_false hone, if_neg Bool.false_ne_true, if_neg Bool.false_ne_true, sub_zero,
      Nat.cast_zero, zero_add]

/-- What is granted was in the bucket, or gained while the clock moved forward. -/
theorem Bucket.grants_le (capacity : K) (hr : 0 ≤ rate) : ∀ (b : Bucket K) (times : List K),
    (b.grants capacity rate times : K) ≤ max 0 b.tokens + climb b.ts times * rate
  | b, [] => by
      rw [grants, climb, zero_mul, add_zero, Nat.cast_zero]
      exact le_max_left _ _
  | b, now :: nows => by
      have ih := grants_le capacity hr (b.draw capacity rate now).2 nows
      have hpaid := b.draw_paid capacity rate now
      have hgain := mul_nonneg (le_max_left 0 (now - b.ts)) hr
      have hrefilled : max 0 (b.refilled capacity rate now) ≤
          max 0 b.tokens + max 0 (now - b.ts) * rate :=
        max_le (add_nonneg (le_max_left _ _) hgain)
          ((min_le_right _ _).trans (add_le_add_left (le_max_right _ _) _))
      rw [draw_ts] at ih
      rw [grants, climb, add_mul, Nat.cast_add]
      linarith

/-- A bucket that lacks a token grants one by the time the clock has climbed far enough. -/
theorem Bucket.one_le_grants (hc : 1 ≤ capacity) : ∀ (b : Bucket K) (times : List K),
    b.tokens < 1 → 1 ≤ b.tokens + climb b.ts times * rate → 1 ≤ b.grants capacity rate times
  | b, [], hb, h => by
      rw [climb, zero_mul, add_zero] at h
      exact absurd h (not_le.mpr hb)
  | b, now :: nows, _, h => by
      rw [grants]
      cases hd : (b.draw capacity rate now).1 with
      | true => exact Nat.le_add_right 1 _
      | false =>
          obtain ⟨hlt, he⟩ := draw_refused hd
          -- it is not full, so nothing of what the clock climbed is lost
          have htokens : b.refilled capacity rate now = b.tokens + max 0 (now - b.ts) * rate :=
            min_eq_right (le_of_not_ge fun hfull => not_le.mpr hlt
              (hc.trans (min_eq_left hfull).ge))
          rw [if_neg Bool.false_ne_true, zero_add, he]
          refine one_le_grants hc ⟨b.refilled capacity rate now, now⟩ nows hlt ?_
          rw [climb, add_mul] at h
          rw [htokens]
          linarith

end DocSearch.TokenBucket
