import DocSearch.Core.Python
import Mathlib.Tactic.Linarith

/-!
# Core — Retry

`with_retry`: a function called again after an exception that may be retried, up to so many times,
with a pause before each new attempt that doubles up to a limit.

* `withRetry_cases`: what a call comes to is what its last attempt came to; every attempt before it
  raised an exception that may be retried.
-/

namespace DocSearch

/-- The keyword arguments of `with_retry`, with their defaults. -/
structure RetryPolicy (ε : Type) where
  attempts : ℕ := 3
  baseDelay : ℚ := 1 / 20
  maxDelay : ℚ := 1 / 2
  retryOn : ε → Bool := fun _ => true

/-- What comes after an attempt. -/
inductive Attempted (ε α : Type) where
  | returned (a : α)
  | raised (e : ε)
  /-- A pause of at most `delay`, and another attempt. -/
  | again (delay : ℚ)

/-- What `with_retry` raises: the last exception, or that there is none. -/
inductive RetryError (ε : Type) where
  | raised (e : ε)
  | assertion

namespace RetryPolicy

variable {ε α σ : Type}

/-- The longest pause after an attempt; the pause itself is drawn below it. -/
def delay (p : RetryPolicy ε) (attempt : ℕ) : ℚ :=
  min p.maxDelay (p.baseDelay * 2 ^ (attempt - 1))

def afterAttempt (p : RetryPolicy ε) (attempt : ℕ) : Except ε α → Attempted ε α
  | .ok a => .returned a
  | .error e =>
      if p.retryOn e = true ∧ attempt ≠ p.attempts then .again (p.delay attempt) else .raised e

/-- The loop, with `left` attempts left.  `sleep` is the pause, of at most so long. -/
def retryLoop (p : RetryPolicy ε) (fn : σ → Except ε α × σ) (sleep : ℚ → σ → σ) :
    (left attempt : ℕ) → σ → Except (RetryError ε) α × σ
  | 0, _, s => (.error .assertion, s)
  | left + 1, attempt, s =>
      match p.afterAttempt attempt (fn s).1 with
      | .returned a => (.ok a, (fn s).2)
      | .raised e => (.error (.raised e), (fn s).2)
      | .again delay => p.retryLoop fn sleep left (attempt + 1) (sleep delay (fn s).2)

/-- `with_retry`. -/
def withRetry (p : RetryPolicy ε) (fn : σ → Except ε α × σ) (sleep : ℚ → σ → σ) (s : σ) :
    Except (RetryError ε) α × σ :=
  p.retryLoop fn sleep p.attempts 1 s

variable {p : RetryPolicy ε} {fn : σ → Except ε α × σ} {sleep : ℚ → σ → σ}

/-- The exception `e` of an attempt is followed by another attempt. -/
def Retries (p : RetryPolicy ε) (attempt : ℕ) (e : ε) : Prop :=
  p.retryOn e = true ∧ attempt ≠ p.attempts

section Loop

variable {left attempt : ℕ} {s s₁ : σ} {e : ε}

theorem retryLoop_ok {a : α} (h : fn s = (.ok a, s₁)) :
    p.retryLoop fn sleep (left + 1) attempt s = (.ok a, s₁) := by
  rw [retryLoop, h]
  rfl

theorem afterAttempt_again (h : p.Retries attempt e) :
    p.afterAttempt attempt (.error e : Except ε α) = .again (p.delay attempt) :=
  if_pos h

theorem afterAttempt_raised (h : ¬ p.Retries attempt e) :
    p.afterAttempt attempt (.error e : Except ε α) = .raised e :=
  if_neg h

/-- The last attempt is not followed by another. -/
theorem ne_attempts_of_again {r : Except ε α} {delay : ℚ}
    (h : p.afterAttempt attempt r = .again delay) : attempt ≠ p.attempts := by
  unfold afterAttempt at h
  split at h
  · cases h
  · split at h
    · rename_i hr
      exact hr.2
    · cases h

theorem retryLoop_again (h : fn s = (.error e, s₁)) (hr : p.Retries attempt e) :
    p.retryLoop fn sleep (left + 1) attempt s =
      p.retryLoop fn sleep left (attempt + 1) (sleep (p.delay attempt) s₁) := by
  rw [retryLoop, h, afterAttempt_again hr]

theorem retryLoop_raised (h : fn s = (.error e, s₁)) (hr : ¬ p.Retries attempt e) :
    p.retryLoop fn sleep (left + 1) attempt s = (.error (.raised e), s₁) := by
  rw [retryLoop, h, afterAttempt_raised hr]

end Loop

/-- Attempts from the one numbered `attempt` on that each raised an exception and were followed by
a pause; the next one is numbered `next`. -/
inductive Failed (p : RetryPolicy ε) (fn : σ → Except ε α × σ) (sleep : ℚ → σ → σ) :
    (attempt : ℕ) → σ → (next : ℕ) → σ → Prop where
  | refl (attempt : ℕ) (s : σ) : Failed p fn sleep attempt s attempt s
  | more {attempt next : ℕ} {s s₁ s' : σ} {e : ε} (hfn : fn s = (.error e, s₁))
      (hr : p.Retries attempt e)
      (h : Failed p fn sleep (attempt + 1) (sleep (p.delay attempt) s₁) next s') :
      Failed p fn sleep attempt s next s'

/-- What the last attempt comes to. -/
def ended : Except ε α × σ → Except (RetryError ε) α × σ
  | (.ok a, s) => (.ok a, s)
  | (.error e, s) => (.error (.raised e), s)

theorem retryLoop_cases : ∀ {left attempt : ℕ} {s : σ}, attempt + left = p.attempts → ∃ last s',
    Failed p fn sleep attempt s last s' ∧ last ≤ p.attempts ∧
      p.retryLoop fn sleep (left + 1) attempt s = ended (fn s') ∧
      ∀ e, (fn s').1 = .error e → ¬ p.Retries last e
  | left, attempt, s, hsum => by
      cases h : fn s with
      | mk r s₁ =>
          cases r with
          | ok a =>
              refine ⟨attempt, s, .refl _ _, by omega, ?_, ?_⟩
              · rw [retryLoop_ok h, h, ended]
              · rw [h]
                exact nofun
          | error e =>
              by_cases hr : p.Retries attempt e
              · cases left with
                | zero => exact absurd hsum hr.2
                | succ left =>
                    have hsum' : attempt + 1 + left = p.attempts := by omega
                    obtain ⟨last, s', hf, hle, heq, hlast⟩ := retryLoop_cases hsum'
                    exact ⟨last, s', .more h hr hf, hle, (retryLoop_again h hr).trans heq, hlast⟩
              · refine ⟨attempt, s, .refl _ _, by omega, ?_, ?_⟩
                · rw [retryLoop_raised h hr, h, ended]
                · rw [h]
                  rintro e' ⟨⟩
                  exact hr

/-- **What a call comes to** is what its last attempt comes to: an earlier one raised an exception
that is retried, and the last one did not, or there was none left. -/
theorem withRetry_cases (h : 1 ≤ p.attempts) (s : σ) : ∃ last s', Failed p fn sleep 1 s last s' ∧
    last ≤ p.attempts ∧ p.withRetry fn sleep s = ended (fn s') ∧
      ∀ e, (fn s').1 = .error e → ¬ p.Retries last e := by
  obtain ⟨n, hn⟩ := Nat.exists_eq_add_of_le h
  obtain ⟨last, s', hf, hle, heq, hlast⟩ :=
    (retryLoop_cases hn.symm : ∃ last s', Failed p fn sleep 1 s last s' ∧ _)
  refine ⟨last, s', hf, hle, Eq.trans ?_ heq, hlast⟩
  rw [withRetry, Nat.add_comm n 1, ← hn]

end RetryPolicy

end DocSearch
