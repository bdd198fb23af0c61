import DocSearch.Clients.SearchEngine
import DocSearch.Core.Resilience
import DocSearch.Core.Retry
import DocSearch.Support.Weight

/-!
# Clients — Load

What the searches of an `OpenSearchEngine` cost the cluster.  Each is a call through the circuit
breaker of a request that `with_retry` makes at most twice, and any number of them overlap.

* `requests_le`: the requests of a run, from the calls it admits.
* `outage_load`: while every request fails, the breaker admits a fixed number of calls, and then as
  many as are under way at once for every recovery time that passes.
-/

namespace DocSearch

open Interleaving

/-- The retries of a search. -/
def searchRetry : RetryPolicy EngineError := { attempts := 2 }

/-- The breaker of the engine.  `running` is the number of admitted calls that have not ended,
`admitted` that of all admitted calls, and `requests` that of the requests made of the cluster; the
code keeps none of them. -/
structure Traffic where
  guarded : Guarded
  running : ℕ
  admitted : ℕ
  requests : ℕ

/-- A call of `search`, suspended. -/
inductive SearchCall where
  | rejected
  /-- Attempt `attempt` waits for its answer. -/
  | requesting (attempt : ℕ)
  /-- The pause before attempt `attempt`. -/
  | pausing (attempt : ℕ)
  deriving DecidableEq

namespace Traffic

def arrive (w : Traffic) : Traffic × SearchCall :=
  match w.guarded.arrive with
  | (g, .running) => (⟨g, w.running + 1, w.admitted + 1, w.requests + 1⟩, .requesting 1)
  | (g, .rejected) => ({ w with guarded := g }, .rejected)

def finish (w : Traffic) (o : Outcome) : Traffic :=
  { w with guarded := w.guarded.finish o, running := w.running - 1 }

/-- The answer to attempt `attempt`. -/
def answered (w : Traffic) (attempt : ℕ) (answer : Except EngineError Unit) :
    Traffic × Option SearchCall :=
  match searchRetry.afterAttempt attempt answer with
  | .returned _ => (w.finish .success, none)
  | .raised (.dependencyUnavailable _) => (w.finish .unavailable, none)
  | .raised (.other _) => (w.finish .failure, none)
  | .again _ => (w, some (.pausing (attempt + 1)))

end Traffic

/-- The searches of an engine. -/
def searchCalls : Machine Traffic SearchCall Unit (Except EngineError Unit) ℚ where
  start w _ := some w.arrive
  resume w t answer :=
    match t with
    | .rejected => some (w, none)
    | .requesting attempt => some (w.answered attempt answer)
    | .pausing attempt => some ({ w with requests := w.requests + 1 }, some (.requesting attempt))
  -- a `CancelledError` is no `Exception`: it is not retried, and the breaker is not told
  cancel w t :=
    match t with
    | .rejected => w
    | .requesting _ | .pausing _ => { w with running := w.running - 1 }
  environment w elapsed :=
    if 0 ≤ elapsed then some { w with guarded.now := w.guarded.now + elapsed } else none

/-- An engine nobody has called. -/
def IsIdle (name : Str) (failureThreshold : ℕ) (recoverySeconds : ℚ) (w : Traffic) : Prop :=
  ∃ g, IsNew name failureThreshold recoverySeconds g ∧ w = ⟨g, 0, 0, 0⟩

/-- A step of an outage: a request fails, no call is cancelled, and at most `c` calls are under way
at once. -/
def Failing (c : ℕ) (s : Config Traffic SearchCall) :
    Action Unit (Except EngineError Unit) ℚ → Prop
  | .start _ _ => s.world.arrive.1.running ≤ c
  | .resume _ (.error (.other _)) => True
  | .resume _ _ => False
  | .cancel _ => False
  | .environment _ => True

instance (c : ℕ) (s : Config Traffic SearchCall) :
    (a : Action Unit (Except EngineError Unit) ℚ) → Decidable (Failing c s a)
  | .start _ _ => inferInstanceAs (Decidable (_ ≤ _))
  | .resume _ (.error (.other _)) => .isTrue trivial
  | .resume _ (.error (.dependencyUnavailable _)) | .resume _ (.ok _) => .isFalse id
  | .cancel _ => .isFalse id
  | .environment _ => .isTrue trivial

/-! ### The breaker of a run -/

/-- What the breaker and the clock are, in every run. -/
structure TrafficOk (threshold : ℕ) (recovery : ℚ) (w : Traffic) : Prop where
  counted : Counted threshold w.guarded
  recovery_eq : w.guarded.breaker.recoverySeconds = recovery

/-- The attempts a call may be at. -/
def AttemptOk : SearchCall → Prop
  | .rejected => True
  | .requesting attempt => 1 ≤ attempt ∧ attempt ≤ 2
  | .pausing attempt => attempt = 2

variable {threshold : ℕ} {recovery : ℚ} {w : Traffic}

theorem Guarded.finish_recoverySeconds (g : Guarded) :
    ∀ o, (g.finish o).breaker.recoverySeconds = g.breaker.recoverySeconds
  | .success | .unavailable => rfl
  | .failure => by
      unfold Guarded.finish Guarded.tell CircuitBreaker.onFailure
      dsimp only
      split_ifs <;> rfl

theorem arrive_cases (g : Guarded) :
    (g.arrive = (g.tell .arrival g.breaker, .rejected) ∧ g.breaker.state = .opened) ∨
    (g.arrive = (g.tell .arrival g.breaker, .running) ∧ g.breaker.state ≠ .opened) ∨
    (g.arrive = (g.tell .arrival { g.breaker with state := .halfOpen }, .running) ∧
      g.breaker.state = .opened ∧ g.breaker.openedAt + g.breaker.recoverySeconds ≤ g.now) := by
  unfold Guarded.arrive CircuitBreaker.beforeCall
  by_cases ho : g.breaker.state = .opened
  · rw [if_pos ho]
    split_ifs with hr
    · exact .inr (.inr ⟨rfl, ho, by linarith⟩)
    · exact .inl ⟨rfl, ho⟩
  · rw [if_neg ho]
    exact .inr (.inl ⟨rfl, ho⟩)

/-- What a call that arrives is to the traffic. -/
theorem Traffic.arrive_cases (w : Traffic) :
    (w.arrive = ({ w with guarded := w.guarded.tell .arrival w.guarded.breaker }, .rejected) ∧
      w.guarded.breaker.state = .opened) ∨
    (w.arrive = (⟨w.guarded.tell .arrival w.guarded.breaker, w.running + 1, w.admitted + 1,
        w.requests + 1⟩, .requesting 1) ∧ w.guarded.breaker.state ≠ .opened) ∨
    (w.arrive = (⟨w.guarded.tell .arrival { w.guarded.breaker with state := .halfOpen },
        w.running + 1, w.admitted + 1, w.requests + 1⟩, .requesting 1) ∧
      w.guarded.breaker.state = .opened ∧
      w.guarded.breaker.openedAt + w.guarded.breaker.recoverySeconds ≤ w.guarded.now) := by
  unfold Traffic.arrive
  rcases DocSearch.arrive_cases w.guarded with ⟨h, ho⟩ | ⟨h, ho⟩ | ⟨h, ho⟩ <;> rw [h]
  · exact .inl ⟨rfl, ho⟩
  · exact .inr (.inl ⟨rfl, ho⟩)
  · exact .inr (.inr ⟨rfl, ho⟩)

/-- What an answer is to the traffic. -/
theorem Traffic.answered_cases (w : Traffic) (attempt : ℕ) (answer : Except EngineError Unit) :
    (∃ o, w.answered attempt answer = (w.finish o, none) ∧
      ∀ m, answer = .error (.other m) → o = .failure) ∨
    (w.answered attempt answer = (w, some (.pausing (attempt + 1))) ∧ attempt ≠ 2) := by
  unfold Traffic.answered
  cases answer with
  | ok a => exact .inl ⟨.success, rfl, nofun⟩
  | error e =>
      by_cases hr : searchRetry.Retries attempt e
      · rw [RetryPolicy.afterAttempt_again hr]
        exact .inr ⟨rfl, hr.2⟩
      · rw [RetryPolicy.afterAttempt_raised hr]
        cases e with
        | dependencyUnavailable d => exact .inl ⟨.unavailable, rfl, nofun⟩
        | other m => exact .inl ⟨.failure, rfl, fun _ _ => rfl⟩

/-! ### One call -/

/-- What the breaker is told of what `with_retry` comes to. -/
def outcomeOf : Except (RetryError EngineError) Unit → Outcome
  | .ok _ => .success
  | .error (.raised (.dependencyUnavailable _)) => .unavailable
  | .error (.raised (.other _)) | .error .assertion => .failure

section Turns

variable {σ : Type} {fn : σ → Except EngineError Unit × σ} {sleep : ℚ → σ → σ}

/-- The steps of a call whose requests are answered by `fn`. -/
def turns (fn : σ → Except EngineError Unit × σ) (sleep : ℚ → σ → σ) (i : ℕ) :
    (left attempt : ℕ) → σ → List (Action Unit (Except EngineError Unit) ℚ)
  | 0, _, _ => []
  | left + 1, attempt, x =>
      .resume i (fn x).1 ::
        match searchRetry.afterAttempt attempt (fn x).1 with
        | .again delay => .resume i (fn x).1 :: turns fn sleep i left (attempt + 1) (sleep delay (fn x).2)
        | .returned _ | .raised _ => []

/-- **A call is a `with_retry`** that the breaker is told the outcome of. -/
theorem run_turns {i : ℕ} : ∀ {left attempt : ℕ} {x : σ} {s : Config Traffic SearchCall},
    attempt + left = searchRetry.attempts → s.tasks i = some (.requesting attempt) →
    ∃ s', searchCalls.run s (turns fn sleep i (left + 1) attempt x) = some s' ∧ s'.tasks i = none ∧
      s'.world.guarded = s.world.guarded.finish
        (outcomeOf (searchRetry.retryLoop fn sleep (left + 1) attempt x).1)
  | left, attempt, x, s, hsum, ht => by
      -- the answer to this attempt
      have hanswer : ∀ {w u}, s.world.answered attempt (fn x).1 = (w, u) →
          searchCalls.step s (.resume i (fn x).1) = some ⟨w, Function.update s.tasks i u⟩ := by
        intro w u h
        simp only [Machine.step, ht, searchCalls, Option.map_some, h]
      unfold Traffic.answered at hanswer
      rw [turns, RetryPolicy.retryLoop]
      cases ha : searchRetry.afterAttempt attempt (fn x).1 with
      | returned a =>
          rw [ha] at hanswer
          exact ⟨_, by rw [Machine.run, hanswer rfl]; rfl, Function.update_self _ _ _, rfl⟩
      | raised e =>
          rw [ha] at hanswer
          cases e with
          | dependencyUnavailable d =>
              exact ⟨⟨s.world.finish .unavailable, Function.update s.tasks i none⟩,
                by rw [Machine.run, hanswer rfl]; rfl, Function.update_self _ _ _, rfl⟩
          | other m =>
              exact ⟨_, by rw [Machine.run, hanswer rfl]; rfl, Function.update_self _ _ _, rfl⟩
      | again delay =>
          rw [ha] at hanswer
          cases left with
          | zero => exact absurd hsum (RetryPolicy.ne_attempts_of_again ha)
          | succ left =>
              -- the pause, and the attempts after it
              have hpause : searchCalls.step
                  ⟨s.world, Function.update s.tasks i (some (.pausing (attempt + 1)))⟩
                  (.resume i (fn x).1) = some ⟨{ s.world with requests := s.world.requests + 1 },
                    Function.update (Function.update s.tasks i (some (.pausing (attempt + 1)))) i
                      (some (.requesting (attempt + 1)))⟩ := by
                simp only [Machine.step, Function.update_self, searchCalls, Option.map_some]
              obtain ⟨s', hrun, hdone, hguarded⟩ := run_turns (x := sleep delay (fn x).2)
                (s := ⟨{ s.world with requests := s.world.requests + 1 },
                  Function.update (Function.update s.tasks i (some (.pausing (attempt + 1)))) i
                    (some (.requesting (attempt + 1)))⟩)
                ((Nat.add_right_comm attempt 1 left).trans hsum) (Function.update_self _ _ _)
              refine ⟨s', ?_, hdone, hguarded⟩
              rw [Machine.run, hanswer rfl, Option.bind_some, Machine.run, hpause, Option.bind_some]
              exact hrun

/-- What a call that the breaker lets in tells it is what its last attempt comes to. -/
theorem search_ends {i : ℕ} (x : σ) {s : Config Traffic SearchCall}
    (ht : s.tasks i = some (.requesting 1)) :
    ∃ s' last x', searchCalls.run s (turns fn sleep i 2 1 x) = some s' ∧ s'.tasks i = none ∧
      searchRetry.Failed fn sleep 1 x last x' ∧ last ≤ 2 ∧
      s'.world.guarded = s.world.guarded.finish (outcomeOf (RetryPolicy.ended (fn x')).1) := by
  obtain ⟨s', hrun, hdone, hguarded⟩ := (run_turns rfl ht :
    ∃ s', searchCalls.run s (turns fn sleep i (1 + 1) 1 x) = some s' ∧ _)
  obtain ⟨last, x', hfailed, hle, hended, -⟩ := (RetryPolicy.withRetry_cases one_le_two x :
    ∃ last x', searchRetry.Failed fn sleep 1 x last x' ∧ _)
  refine ⟨s', last, x', hrun, hdone, hfailed, hle, ?_⟩
  rw [← hended]
  exact hguarded

end Turns

/-- **What a step can do** to the traffic and to the call that takes it. -/
inductive Change (w : Traffic) : Action Unit (Except EngineError Unit) ℚ → Option SearchCall →
    Traffic → Option SearchCall → Prop where
  | reject (i : ℕ) (ho : w.guarded.breaker.state = .opened) :
      Change w (.start i ()) none { w with guarded := w.guarded.tell .arrival w.guarded.breaker }
        (some .rejected)
  | letIn (i : ℕ) (ho : w.guarded.breaker.state ≠ .opened) :
      Change w (.start i ()) none ⟨w.guarded.tell .arrival w.guarded.breaker, w.running + 1,
        w.admitted + 1, w.requests + 1⟩ (some (.requesting 1))
  | probe (i : ℕ) (ho : w.guarded.breaker.state = .opened)
      (hr : w.guarded.breaker.openedAt + w.guarded.breaker.recoverySeconds ≤ w.guarded.now) :
      Change w (.start i ()) none
        ⟨w.guarded.tell .arrival { w.guarded.breaker with state := .halfOpen }, w.running + 1,
          w.admitted + 1, w.requests + 1⟩ (some (.requesting 1))
  | raised (i : ℕ) (answer : Except EngineError Unit) :
      Change w (.resume i answer) (some .rejected) w none
  | ended (i : ℕ) (answer : Except EngineError Unit) (attempt : ℕ) (o : Outcome)
      (ho : ∀ m, answer = .error (.other m) → o = .failure) :
      Change w (.resume i answer) (some (.requesting attempt)) (w.finish o) none
  | paused (i : ℕ) (answer : Except EngineError Unit) (attempt : ℕ) :
      Change w (.resume i answer) (some (.requesting attempt)) w (some (.pausing (attempt + 1)))
  | retried (i : ℕ) (answer : Except EngineError Unit) (attempt : ℕ) :
      Change w (.resume i answer) (some (.pausing attempt)) { w with requests := w.requests + 1 }
        (some (.requesting attempt))
  | cancelled (i : ℕ) (t : SearchCall) :
      Change w (.cancel i) (some t) (searchCalls.cancel w t) none

theorem change_cases {s s' : Config Traffic SearchCall}
    {a : Action Unit (Except EngineError Unit) ℚ} (hs : searchCalls.step s a = some s') :
    (∃ i u, s' = ⟨s'.world, Function.update s.tasks i u⟩ ∧
      Change s.world a (s.tasks i) s'.world u) ∨
    ∃ elapsed, a = .environment elapsed ∧ 0 ≤ elapsed ∧ s' =
      ⟨{ s.world with guarded.now := s.world.guarded.now + elapsed }, s.tasks⟩ := by
  rcases Machine.step_cases hs with ⟨i, r, w, t, rfl, hn, hw, rfl⟩ |
    ⟨i, answer, t, w, u, rfl, ht, hw, rfl⟩ | ⟨i, t, rfl, ht, rfl⟩ | ⟨e, w, rfl, hw, rfl⟩
  · refine .inl ⟨i, some t, rfl, ?_⟩
    have hw : s.world.arrive = (w, t) := Option.some.inj hw
    rw [hn]
    rcases s.world.arrive_cases with ⟨he, ho⟩ | ⟨he, ho⟩ | ⟨he, ho, hr⟩ <;> rw [he] at hw <;> cases hw
    · exact .reject i ho
    · exact .letIn i ho
    · exact .probe i ho hr
  · refine .inl ⟨i, u, rfl, ?_⟩
    rw [ht]
    cases t with
    | rejected => cases hw; exact .raised i answer
    | requesting attempt =>
        have hw : s.world.answered attempt answer = (w, u) := Option.some.inj hw
        rcases s.world.answered_cases attempt answer with ⟨o, he, ho⟩ | ⟨he, -⟩ <;> rw [he] at hw <;>
          cases hw
        · exact .ended i answer attempt o ho
        · exact .paused i answer attempt
    | pausing attempt => cases hw; exact .retried i answer attempt
  · refine .inl ⟨i, none, rfl, ?_⟩
    rw [ht]
    exact .cancelled i t
  · obtain ⟨he, hw⟩ := Option.ite_none_right_eq_some.mp hw
    cases hw
    exact .inr ⟨e, rfl, he, rfl⟩

theorem TrafficOk.finish (hpos : 0 < threshold) (h : TrafficOk threshold recovery w) (o : Outcome) :
    TrafficOk threshold recovery (w.finish o) :=
  ⟨h.counted.finish hpos o, (w.guarded.finish_recoverySeconds o).trans h.recovery_eq⟩

theorem TrafficOk.arrive (h : TrafficOk threshold recovery w) :
    TrafficOk threshold recovery w.arrive.1 := by
  have hc := h.counted.arrive
  unfold Traffic.arrive
  rcases DocSearch.arrive_cases w.guarded with ⟨he, -⟩ | ⟨he, -⟩ | ⟨he, -⟩ <;> rw [he] at hc ⊢
  all_goals exact ⟨hc, h.recovery_eq⟩

theorem TrafficOk.elapse (h : TrafficOk threshold recovery w) {elapsed : ℚ} (he : 0 ≤ elapsed) :
    TrafficOk threshold recovery { w with guarded.now := w.guarded.now + elapsed } :=
  ⟨⟨h.counted.threshold_eq, h.counted.counter, h.counted.closed_iff, fun ho =>
    ⟨(h.counted.since ho).1, (h.counted.since ho).2.trans (le_add_of_nonneg_right he)⟩⟩,
    h.recovery_eq⟩

theorem attemptOk_arrive (w : Traffic) : AttemptOk w.arrive.2 := by
  rcases w.arrive_cases with ⟨he, -⟩ | ⟨he, -⟩ | ⟨he, -⟩ <;> rw [he]
  · trivial
  · exact ⟨le_rfl, by omega⟩
  · exact ⟨le_rfl, by omega⟩

theorem traffic_established {name : Str} (hpos : 0 < threshold) :
    searchCalls.Established .free (IsIdle name threshold recovery)
      { inv := TrafficOk threshold recovery, assertion := fun _ => AttemptOk } := by
  refine Machine.Valid.established ⟨?_, ?_, ?_, ?_, ?_, ?_⟩ Machine.established_trivial
  · rintro w ⟨g, ⟨now, rfl⟩, rfl⟩
    exact ⟨⟨rfl, rfl, iff_of_true rfl hpos, nofun⟩, rfl⟩
  · intro w r w' t _ _ hs hi
    obtain ⟨rfl, rfl⟩ := Prod.mk.inj (Option.some.inj hs)
    exact ⟨hi.arrive, attemptOk_arrive w, trivial⟩
  · intro w t answer w' u _ _ _ hs hi ha
    cases t with
    | rejected =>
        cases hs
        exact ⟨hi, nofun, trivial⟩
    | requesting attempt =>
        have hs : w.answered attempt answer = (w', u) := Option.some.inj hs
        rcases w.answered_cases attempt answer with ⟨o, he, -⟩ | ⟨he, hne⟩
        · rw [he] at hs
          cases hs
          exact ⟨hi.finish hpos o, nofun, trivial⟩
        · rw [he] at hs
          cases hs
          refine ⟨hi, ?_, trivial⟩
          rintro t ⟨⟩
          have h1 := ha.1
          have h2 := ha.2
          change attempt + 1 = 2
          omega
    | pausing attempt =>
        cases hs
        refine ⟨⟨hi.counted, hi.recovery_eq⟩, ?_, trivial⟩
        rintro t ⟨⟩
        have h2 : attempt = 2 := ha
        exact ⟨by omega, h2.le⟩
  · intro w t _ _ hi _
    cases t <;> exact ⟨⟨hi.counted, hi.recovery_eq⟩, trivial⟩
  · intro w e w' _ _ hs hi
    obtain ⟨he, hw⟩ := Option.ite_none_right_eq_some.mp hs
    cases hw
    exact ⟨hi.elapse he, trivial⟩
  · intro w w' t _ _ _ ha
    exact ha

/-! ### Calls and requests -/

/-- A call that was admitted. -/
def admittedCall : SearchCall → ℕ
  | .rejected => 0
  | .requesting _ | .pausing _ => 1

/-- The requests a call may still make. -/
def requestsLeft : SearchCall → ℕ
  | .rejected => 0
  | .requesting attempt => 2 - attempt
  | .pausing attempt => 3 - attempt

theorem requestsLeft_le {t : SearchCall} (h : AttemptOk t) : requestsLeft t ≤ admittedCall t := by
  cases t with
  | rejected => exact le_rfl
  | requesting attempt =>
      have h1 := h.1
      change 2 - attempt ≤ 1
      omega
  | pausing attempt =>
      have h2 : attempt = 2 := h
      change 3 - attempt ≤ 1
      omega

/-- `running` counts the admitted calls that are alive. -/
theorem running_eq {init : Traffic → Prop} (hinit : ∀ w, init w → w.running = 0)
    {s : Config Traffic SearchCall} (h : searchCalls.Reach .free init s) :
    s.world.running = s.weight admittedCall := by
  induction h with
  | idle h => exact (hinit _ h).trans (Config.weight_idle _ _).symm
  | step h _ hs ih =>
      rcases change_cases hs with ⟨i, u, he, hc⟩ | ⟨e, -, -, rfl⟩
      · rename_i s s' a _
        have hw := Config.weight_update admittedCall h.few s'.world i u
        rw [← he] at hw
        generalize s.tasks i = t at hc hw
        generalize s'.world = w' at hc ⊢
        cases hc with
        | ended i answer attempt o ho =>
            change s.world.running - 1 = _
            change _ + 1 = _ + 0 at hw
            omega
        | cancelled i t =>
            cases t with
            | rejected => exact ih.trans hw.symm
            | requesting _ | pausing _ =>
                change s.world.running - 1 = _
                change _ + 1 = _ + 0 at hw
                omega
        | reject | raised | paused | retried => exact ih.trans (Nat.add_right_cancel hw).symm
        | letIn | probe => exact (congrArg (· + 1) ih).trans hw.symm
      · exact ih

/-- What a step adds to the requests, the calls that may still make some, and the calls. -/
theorem Change.requests_le {a : Action Unit (Except EngineError Unit) ℚ} {t u : Option SearchCall}
    {w' : Traffic} (h : Change w a t w' u) (ht : ∀ v, t = some v → AttemptOk v) :
    w'.requests + u.elim 0 requestsLeft + 2 * w.admitted ≤
      w.requests + t.elim 0 requestsLeft + 2 * w'.admitted := by
  cases h with
  | reject | raised => exact le_rfl
  | letIn | probe =>
      change w.requests + 1 + 1 + 2 * w.admitted ≤ w.requests + 0 + 2 * (w.admitted + 1)
      omega
  | ended i answer attempt o =>
      change w.requests + 0 + 2 * w.admitted ≤ w.requests + _ + 2 * w.admitted
      omega
  | paused i answer attempt =>
      change w.requests + (3 - (attempt + 1)) + 2 * w.admitted ≤
        w.requests + (2 - attempt) + 2 * w.admitted
      omega
  | retried i answer attempt =>
      have h2 : attempt = 2 := ht _ rfl
      change w.requests + 1 + (2 - attempt) + 2 * w.admitted ≤
        w.requests + (3 - attempt) + 2 * w.admitted
      omega
  | cancelled i t =>
      cases t with
      | rejected => exact le_rfl
      | requesting attempt | pausing attempt =>
          change w.requests + 0 + 2 * w.admitted ≤ w.requests + _ + 2 * w.admitted
          omega

/-- **The requests of a run**: two for each call it admits, and one for each call that was under way
when it began. -/
theorem requests_le {name : Str} (hpos : 0 < threshold) {s s' : Config Traffic SearchCall}
    (h : searchCalls.Reach .free (IsIdle name threshold recovery) s)
    {as : List (Action Unit (Except EngineError Unit) ℚ)} (hs : searchCalls.run s as = some s') :
    s'.world.requests + 2 * s.world.admitted ≤
      s.world.requests + s.world.running + 2 * s'.world.admitted := by
  have hok : searchCalls.Established .free (IsIdle name threshold recovery) _ :=
    traffic_established hpos
  have hrunning : s.world.running = s.weight admittedCall := by
    refine running_eq ?_ h
    rintro w ⟨g, -, rfl⟩
    rfl
  have hleft : s.weight requestsLeft ≤ s.world.running := by
    rw [hrunning]
    exact Config.weight_le h.few fun i t ht => requestsLeft_le ((hok.holds h).2 i t ht)
  have hrun : searchCalls.Reach .free (IsIdle name threshold recovery) s' ∧
      s'.world.requests + s'.weight requestsLeft + 2 * s.world.admitted ≤
        s.world.requests + s.weight requestsLeft + 2 * s'.world.admitted := by
    refine Machine.ConformsBy.rule (Q := fun _ _ => True) (I := fun s' =>
      searchCalls.Reach .free (IsIdle name threshold recovery) s' ∧
        s'.world.requests + s'.weight requestsLeft + 2 * s.world.admitted ≤
          s.world.requests + s.weight requestsLeft + 2 * s'.world.admitted)
      (fun s₁ s₂ a _ h₁₂ hI => ?_) (Machine.conformsBy_true as s) hs ⟨h, le_rfl⟩
    refine ⟨hI.1.step (Restriction.free_allows _ _) h₁₂, ?_⟩
    rcases change_cases h₁₂ with ⟨i, u, he, hc⟩ | ⟨e, -, -, rfl⟩
    · have hw := Config.weight_update requestsLeft hI.1.few s₂.world i u
      rw [← he] at hw
      have hc := hc.requests_le fun t ht => (hok.holds hI.1).2 i t ht
      have hI := hI.2
      omega
    · exact hI.2
  omega

/-! ### An outage -/

/-- What the breaker has admitted since `w₀`, while every call that ended failed.  The circuit is
closed for as long as it counts the failures; a probe is due a recovery time after a failure, and
what is admitted after it is under way until the next one. -/
def Quota (c : ℕ) (w₀ w : Traffic) : Prop :=
  match w.guarded.breaker.state with
  | .closed => w.admitted + w₀.running + w₀.guarded.breaker.failures =
      w₀.admitted + w.running + w.guarded.breaker.failures
  | .opened => ((w.admitted : ℚ) - w₀.admitted) * w.guarded.breaker.recoverySeconds ≤
      (w.guarded.breaker.failureThreshold - 1) * w.guarded.breaker.recoverySeconds +
        c * max 0 (w.guarded.breaker.openedAt + w.guarded.breaker.recoverySeconds -
          w₀.guarded.now)
  | .halfOpen => ((w.admitted : ℚ) - w₀.admitted - w.running) * w.guarded.breaker.recoverySeconds ≤
      (w.guarded.breaker.failureThreshold - 1) * w.guarded.breaker.recoverySeconds +
        c * (w.guarded.now - w₀.guarded.now)

section Quota

variable {c : ℕ} {w₀ : Traffic}

theorem Quota.refl (hpos : 1 ≤ threshold) (hrec : 0 ≤ recovery)
    (h : TrafficOk threshold recovery w) : Quota c w w := by
  have hthreshold : (0 : ℚ) ≤ (threshold - 1) * recovery :=
    mul_nonneg (sub_nonneg.mpr (Nat.one_le_cast.mpr hpos)) hrec
  unfold Quota
  rw [h.counted.threshold_eq, h.recovery_eq]
  split
  · rfl
  · have hmax := mul_nonneg (Nat.cast_nonneg' c) (le_max_left 0
      (w.guarded.breaker.openedAt + recovery - w.guarded.now))
    linarith
  · have hrunning := mul_nonneg (Nat.cast_nonneg' w.running) hrec
    linarith

/-- Before the failure of a call that opens the circuit, whatever state that was in. -/
theorem Quota.opening (hrec : 0 ≤ recovery) (h : TrafficOk threshold recovery w)
    (hc : w.running ≤ c) (hnow : w₀.guarded.now ≤ w.guarded.now) (hq : Quota c w₀ w) :
    ((w.admitted : ℚ) - w₀.admitted) * recovery ≤
      (threshold - 1) * recovery + c * (w.guarded.now + recovery - w₀.guarded.now) := by
  have hc' : (w.running : ℚ) * recovery ≤ c * recovery :=
    mul_le_mul_of_nonneg_right (Nat.cast_le.mpr hc) hrec
  have helapsed : 0 ≤ c * (w.guarded.now - w₀.guarded.now) :=
    mul_nonneg (Nat.cast_nonneg' c) (sub_nonneg.mpr hnow)
  unfold Quota at hq
  rw [h.counted.threshold_eq, h.recovery_eq] at hq
  split at hq
  · rename_i hs
    have hlt := h.counted.closed_iff.mp hs
    have hle : ((w.admitted : ℚ) - w₀.admitted) ≤ threshold - 1 + w.running := by
      have hnat : w.admitted + 1 ≤ w₀.admitted + (threshold + w.running) := by omega
      have hcast : (w.admitted : ℚ) + 1 ≤ w₀.admitted + (threshold + w.running) := by
        exact_mod_cast hnat
      linarith
    have := mul_le_mul_of_nonneg_right hle hrec
    linarith
  · rename_i hs
    have hopened := (h.counted.since hs).2
    have hmax : max 0 (w.guarded.breaker.openedAt + recovery - w₀.guarded.now) ≤
        w.guarded.now + recovery - w₀.guarded.now := max_le (by linarith) (by linarith)
    have := mul_le_mul_of_nonneg_left hmax (Nat.cast_nonneg' c : (0 : ℚ) ≤ c)
    linarith
  · linarith

/-- **A step of an outage** keeps the quota. -/
theorem Quota.change (hrec : 0 ≤ recovery) (h : TrafficOk threshold recovery w)
    (hc : w.running ≤ c) (hnow : w₀.guarded.now ≤ w.guarded.now) (hq : Quota c w₀ w)
    {a : Action Unit (Except EngineError Unit) ℚ} {t u : Option SearchCall} {w' : Traffic}
    (hch : Change w a t w' u)
    (hfail : ∀ i answer, a = .resume i answer → ∃ m, answer = .error (.other m))
    (hcancel : ∀ i, a ≠ .cancel i) (hrunning : ∀ v, t = some v → admittedCall v ≤ w.running) :
    Quota c w₀ w' := by
  cases hch with
  | reject | raised | paused | retried => exact hq
  | cancelled i => exact absurd rfl (hcancel i)
  | letIn i ho =>
      unfold Quota at hq ⊢
      dsimp only [Guarded.tell]
      split at hq
      · omega
      · rename_i hs
        exact absurd hs ho
      · push_cast
        have hsame : (w.admitted : ℚ) + 1 - w₀.admitted - (w.running + 1) =
            w.admitted - w₀.admitted - w.running := by ring
        rw [hsame]
        exact hq
  | probe i ho hr =>
      unfold Quota at hq ⊢
      rw [ho] at hq
      dsimp only [Guarded.tell] at hq ⊢
      rw [h.counted.threshold_eq, h.recovery_eq] at hq ⊢
      rw [h.recovery_eq] at hr
      push_cast
      -- the recovery time has passed since the last failure
      have hmax : max 0 (w.guarded.breaker.openedAt + recovery - w₀.guarded.now) ≤
          w.guarded.now - w₀.guarded.now := max_le (by linarith) (by linarith)
      have hwait := mul_le_mul_of_nonneg_left hmax (Nat.cast_nonneg' c : (0 : ℚ) ≤ c)
      have hrest := mul_nonneg (Nat.cast_nonneg' w.running : (0 : ℚ) ≤ w.running) hrec
      linarith
  | ended i answer attempt o ho =>
      obtain ⟨m, hm⟩ := hfail i answer rfl
      obtain rfl := ho m hm
      have hone : 1 ≤ w.running := hrunning _ rfl
      rcases onFailure_cases h.counted with ⟨he, hle⟩ | ⟨he, hs, hlt⟩
      · have hopening := hq.opening hrec h hc hnow
        have hmax := mul_le_mul_of_nonneg_left
          (le_max_right 0 (w.guarded.now + recovery - w₀.guarded.now))
          (Nat.cast_nonneg' c : (0 : ℚ) ≤ c)
        unfold Quota Traffic.finish Guarded.finish
        dsimp only [Guarded.tell]
        rw [he]
        dsimp only
        rw [h.counted.threshold_eq, h.recovery_eq]
        linarith
      · unfold Quota at hq ⊢
        rw [hs] at hq
        unfold Traffic.finish Guarded.finish
        dsimp only [Guarded.tell] at hq ⊢
        rw [he]
        dsimp only
        rw [hs]
        dsimp only
        omega

theorem Quota.elapse {elapsed : ℚ} (he : 0 ≤ elapsed) (hq : Quota c w₀ w) :
    Quota c w₀ { w with guarded.now := w.guarded.now + elapsed } := by
  unfold Quota at hq ⊢
  dsimp only
  split at hq
  · exact hq
  · exact hq
  · have := mul_nonneg (Nat.cast_nonneg' c : (0 : ℚ) ≤ c) he
    linarith

/-- What the quota of a state comes to. -/
theorem Quota.admitted_le (hrec : 0 ≤ recovery) (h : TrafficOk threshold recovery w)
    (hc : w.running ≤ c) (hnow : w₀.guarded.now ≤ w.guarded.now) (hq : Quota c w₀ w) :
    ((w.admitted : ℚ) - w₀.admitted) * recovery ≤
      (threshold + c - 1) * recovery + c * (w.guarded.now - w₀.guarded.now) := by
  have := hq.opening hrec h hc hnow
  linarith

end Quota

theorem Change.now_eq {a : Action Unit (Except EngineError Unit) ℚ} {t u : Option SearchCall}
    {w' : Traffic} (h : Change w a t w' u) : w'.guarded.now = w.guarded.now := by
  cases h with
  | ended i answer attempt o => cases o <;> rfl
  | cancelled i t => cases t <;> rfl
  | reject | letIn | probe | raised | paused | retried => rfl

/-- Only a call that arrives adds to those under way. -/
theorem Change.running_le {a : Action Unit (Except EngineError Unit) ℚ} {t u : Option SearchCall}
    {w' : Traffic} (h : Change w a t w' u) (ha : ∀ i, a ≠ .start i ()) : w'.running ≤ w.running := by
  cases h with
  | reject i | letIn i | probe i => exact absurd rfl (ha i)
  | ended i answer attempt o => exact Nat.sub_le _ _
  | cancelled i t =>
      cases t with
      | rejected => exact le_rfl
      | requesting | pausing => exact Nat.sub_le _ _
  | raised | paused | retried => exact le_rfl

theorem Failing.running_le {c : ℕ} {s s' : Config Traffic SearchCall}
    {a : Action Unit (Except EngineError Unit) ℚ} (hf : Failing c s a) (hc : s.world.running ≤ c)
    (hs : searchCalls.step s a = some s') : s'.world.running ≤ c := by
  rcases change_cases hs with ⟨i, u, -, hch⟩ | ⟨e, -, -, rfl⟩
  · cases a with
    | start i r =>
        rcases Machine.step_cases hs with ⟨j, r', w, t, he, -, hw, rfl⟩ | ⟨_, _, _, _, _, he, -⟩ |
          ⟨_, _, he, -⟩ | ⟨_, _, he, -⟩
        · obtain rfl : s.world.arrive.1 = w := congrArg Prod.fst (Option.some.inj hw)
          exact hf
        all_goals cases he
    | resume | cancel | environment => exact (hch.running_le nofun).trans hc
  · exact hc

/-- **The load of an outage.**  In a window of any run in which every request fails and at most `c`
calls are under way at once, the breaker admits at most `threshold - 1 + c` calls, and `c` more for
every recovery time that passes; they make two requests each. -/
theorem outage_load {name : Str} (hpos : 1 ≤ threshold) (hrec : 0 ≤ recovery) {c : ℕ}
    {s s' : Config Traffic SearchCall}
    (h : searchCalls.Reach .free (IsIdle name threshold recovery) s) (hc : s.world.running ≤ c)
    {as : List (Action Unit (Except EngineError Unit) ℚ)}
    (hf : searchCalls.ConformsBy (Failing c) s as) (hs : searchCalls.run s as = some s') :
    s'.world.requests + 2 * s.world.admitted ≤
        s.world.requests + s.world.running + 2 * s'.world.admitted ∧
      ((s'.world.admitted : ℚ) - s.world.admitted) * recovery ≤
        (threshold + c - 1) * recovery + c * (s'.world.guarded.now - s.world.guarded.now) := by
  have hok : searchCalls.Established .free (IsIdle name threshold recovery) _ :=
    traffic_established hpos
  have hinit : ∀ w, IsIdle name threshold recovery w → w.running = 0 := by
    rintro w ⟨g, -, rfl⟩
    rfl
  refine ⟨requests_le hpos h hs, ?_⟩
  have hwindow : searchCalls.Reach .free (IsIdle name threshold recovery) s' ∧
      s'.world.running ≤ c ∧ s.world.guarded.now ≤ s'.world.guarded.now ∧
        Quota c s.world s'.world := by
    refine hf.rule (I := fun s' => searchCalls.Reach .free (IsIdle name threshold recovery) s' ∧
      s'.world.running ≤ c ∧ s.world.guarded.now ≤ s'.world.guarded.now ∧
        Quota c s.world s'.world) ?_ hs ⟨h, hc, le_rfl, .refl hpos hrec (hok.holds h).1⟩
    rintro s₁ s₂ a hf₁ h₁₂ ⟨h₁, hc₁, hnow, hq⟩
    refine ⟨h₁.step (Restriction.free_allows _ _) h₁₂, hf₁.running_le hc₁ h₁₂, ?_⟩
    rcases change_cases h₁₂ with ⟨i, u, -, hch⟩ | ⟨e, -, he, rfl⟩
    · refine ⟨hnow.trans hch.now_eq.ge, hq.change hrec (hok.holds h₁).1 hc₁ hnow hch ?_ ?_ ?_⟩
      · rintro j answer rfl
        cases answer with
        | ok x => exact hf₁.elim
        | error e =>
            cases e with
            | dependencyUnavailable d => exact hf₁.elim
            | other m => exact ⟨m, rfl⟩
      · rintro j rfl
        exact hf₁
      · intro v hv
        exact (running_eq hinit h₁).symm ▸ Config.le_weight admittedCall h₁.few hv
    · exact ⟨hnow.trans (le_add_of_nonneg_right he), hq.elapse he⟩
  obtain ⟨h', hc', hnow, hq⟩ := hwindow
  exact hq.admitted_le hrec (hok.holds h').1 hc' hnow

namespace Sample

/-- A call is tried twice and opens the circuit, another is turned away, and a third is let through
after the recovery time and opens it again. -/
def failingCalls : List (Action Unit (Except EngineError Unit) ℚ) :=
  let down : Except EngineError Unit := .error (.other "down".toList)
  [.start 0 (), .resume 0 down, .resume 0 down, .resume 0 down, .start 1 (), .environment 10,
    .start 2 (), .resume 2 down, .resume 2 down, .resume 2 down]

theorem failingCalls_run :
    (searchCalls.run (Config.idle ⟨guarded, 0, 0, 0⟩) failingCalls).isSome := by decide +kernel

def afterFailing : Config Traffic SearchCall :=
  searchCalls.after ⟨guarded, 0, 0, 0⟩ failingCalls failingCalls_run

theorem outage_load_sample :
    afterFailing.world.requests + 2 * 0 ≤ 0 + 0 + 2 * afterFailing.world.admitted ∧
      ((afterFailing.world.admitted : ℚ) - (0 : ℕ)) * 10 ≤
        ((1 : ℕ) + (1 : ℕ) - 1) * 10 + (1 : ℕ) * (afterFailing.world.guarded.now - 0) :=
  outage_load le_rfl (by norm_num) (.idle ⟨guarded, ⟨0, rfl⟩, rfl⟩) (Nat.zero_le 1)
    (by decide +kernel) (Option.some_get failingCalls_run).symm

end Sample

end DocSearch
