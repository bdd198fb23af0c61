import DocSearch.Core.Python
import DocSearch.Support.Interleaving
import Mathlib.Tactic.Linarith

/-!
# Core — Resilience

`CircuitBreaker`, and any number of calls through it that overlap.  A call asks the breaker when it
arrives and reports to it when it ends, whatever the state of the breaker is by then.

* `breaker_established`: the counter is the number of failures reported since the last success, and
  the circuit is closed while that is below the threshold.
* `documented_iff`: a step follows the documented machine exactly when it is not a success that is
  reported while the circuit is open.
* `failures_eq`: the counter, from the outcomes of the calls of a run.
-/

namespace DocSearch

open Interleaving

/-- `CircuitState`; `opened` is `OPEN`. -/
inductive CircuitState where
  | closed
  | opened
  | halfOpen
  deriving DecidableEq

/-- The object; times are exact. -/
structure CircuitBreaker where
  name : Str
  failureThreshold : ℕ
  recoverySeconds : ℚ
  failures : ℕ
  openedAt : ℚ
  state : CircuitState

namespace CircuitBreaker

/-- A new breaker. -/
def new (name : Str) (failureThreshold : ℕ) (recoverySeconds : ℚ) : CircuitBreaker where
  name := name
  failureThreshold := failureThreshold
  recoverySeconds := recoverySeconds
  failures := 0
  openedAt := 0
  state := .closed

/-- `_before_call`; the error is a `DependencyUnavailableError` of that name. -/
def beforeCall (b : CircuitBreaker) (now : ℚ) : Except Str CircuitBreaker :=
  if b.state = .opened then
    if b.recoverySeconds ≤ now - b.openedAt then .ok { b with state := .halfOpen }
    else .error b.name
  else .ok b

/-- `_on_success`. -/
def onSuccess (b : CircuitBreaker) : CircuitBreaker := { b with failures := 0, state := .closed }

/-- `_on_failure`. -/
def onFailure (b : CircuitBreaker) (now : ℚ) : CircuitBreaker :=
  let b := { b with failures := b.failures + 1 }
  if b.state = .halfOpen ∨ b.failureThreshold ≤ b.failures then
    { b with openedAt := now, state := .opened }
  else b

end CircuitBreaker

/-! ### Overlapping calls -/

/-- How the function a call wraps ends. -/
inductive Outcome where
  | success
  /-- `DependencyUnavailableError`, which is passed on and not reported. -/
  | unavailable
  /-- Any other `Exception`. -/
  | failure

/-- `CircuitBreaker.call`, suspended. -/
inductive BreakerCall where
  | rejected
  | running
  deriving DecidableEq

/-- What a breaker is told. -/
inductive Report where
  | arrival
  | success
  | failure
  deriving DecidableEq

/-- A breaker and the clock.  `reports` is everything it was told, the newest first, and `since` the
time at which the circuit last became open; the code keeps neither. -/
structure Guarded where
  breaker : CircuitBreaker
  now : ℚ
  reports : List Report
  since : ℚ

namespace Guarded

/-- The breaker after a report. -/
def tell (g : Guarded) (r : Report) (b : CircuitBreaker) : Guarded where
  breaker := b
  now := g.now
  reports := r :: g.reports
  since := if b.state = .opened ∧ g.breaker.state ≠ .opened then g.now else g.since

/-- The first half of a call. -/
def arrive (g : Guarded) : Guarded × BreakerCall :=
  match g.breaker.beforeCall g.now with
  | .ok b => (g.tell .arrival b, .running)
  | .error _ => (g.tell .arrival g.breaker, .rejected)

/-- The second half of an admitted call. -/
def finish (g : Guarded) : Outcome → Guarded
  | .success => g.tell .success g.breaker.onSuccess
  | .unavailable => g
  | .failure => g.tell .failure (g.breaker.onFailure g.now)

end Guarded

/-- Calls of one breaker.  A cancelled call reports nothing. -/
def breakerMachine : Machine Guarded BreakerCall Unit Outcome ℚ where
  start g _ := some g.arrive
  resume g t o :=
    match t with
    | .rejected => some (g, none)
    | .running => some (g.finish o, none)
  cancel g _ := g
  environment g elapsed := if 0 ≤ elapsed then some { g with now := g.now + elapsed } else none

/-- A breaker nobody has called, at any time. -/
def IsNew (name : Str) (failureThreshold : ℕ) (recoverySeconds : ℚ) (g : Guarded) : Prop :=
  ∃ now, g = ⟨.new name failureThreshold recoverySeconds, now, [], 0⟩

/-- The failures reported since the last success. -/
def consecutiveFailures : List Report → ℕ
  | [] => 0
  | .arrival :: rs => consecutiveFailures rs
  | .success :: _ => 0
  | .failure :: rs => consecutiveFailures rs + 1

/-- **The documented machine.**  `CLOSED` to `OPEN` when as many consecutive failures are reached as
the threshold says, `OPEN` to `HALF_OPEN` by a call that arrives once the recovery time has passed,
`HALF_OPEN` to `CLOSED` on a success and to `OPEN` on a failure; nothing else. -/
def Documented (g g' : Guarded) : Prop :=
  match g.breaker.state, g'.breaker.state with
  | .closed, .closed | .opened, .opened | .halfOpen, .halfOpen => True
  | .closed, .opened => g'.reports = .failure :: g.reports ∧
      consecutiveFailures g'.reports = g.breaker.failureThreshold
  | .opened, .halfOpen => g'.reports = .arrival :: g.reports ∧
      g.since + g.breaker.recoverySeconds ≤ g.now
  | .halfOpen, .closed => g'.reports = .success :: g.reports
  | .halfOpen, .opened => g'.reports = .failure :: g.reports
  | .closed, .halfOpen | .opened, .closed => False

/-- A call succeeds, and the circuit is open. -/
def LateSuccess (s : Config Guarded BreakerCall) : Action Unit Outcome ℚ → Prop
  | .resume i .success => s.tasks i = some .running ∧ s.world.breaker.state = .opened
  | _ => False

/-! ### The counter -/

/-- What a breaker knows of the reports. -/
structure Counted (threshold : ℕ) (g : Guarded) : Prop where
  threshold_eq : g.breaker.failureThreshold = threshold
  counter : g.breaker.failures = consecutiveFailures g.reports
  closed_iff : g.breaker.state = .closed ↔ g.breaker.failures < threshold
  since : g.breaker.state = .opened → g.since ≤ g.breaker.openedAt ∧ g.breaker.openedAt ≤ g.now

variable {threshold : ℕ} {g : Guarded}

theorem Counted.arrive (h : Counted threshold g) : Counted threshold g.arrive.1 := by
  have quiet : Counted threshold (g.tell .arrival g.breaker) := by
    refine ⟨h.threshold_eq, h.counter, h.closed_iff, fun ho => ?_⟩
    have hs : (g.tell .arrival g.breaker).since = g.since := if_neg fun hn => hn.2 ho
    exact hs.symm ▸ h.since ho
  unfold Guarded.arrive CircuitBreaker.beforeCall
  by_cases ho : g.breaker.state = .opened
  · rw [if_pos ho]
    split_ifs
    · -- the circuit was not closed, and is not
      refine ⟨h.threshold_eq, h.counter, iff_of_false nofun fun hlt => ?_, nofun⟩
      have hc := h.closed_iff.mpr hlt
      rw [ho] at hc
      cases hc
    · exact quiet
  · rw [if_neg ho]
    exact quiet

theorem Counted.onSuccess (hpos : 0 < threshold) (h : Counted threshold g) :
    Counted threshold (g.tell .success g.breaker.onSuccess) :=
  ⟨h.threshold_eq, rfl, iff_of_true rfl hpos, nofun⟩

/-- A failure that does not open the circuit leaves it as it is. -/
theorem onFailure_cases (h : Counted threshold g) :
    (g.breaker.onFailure g.now =
        { g.breaker with failures := g.breaker.failures + 1, openedAt := g.now, state := .opened } ∧
      threshold ≤ g.breaker.failures + 1) ∨
    (g.breaker.onFailure g.now = { g.breaker with failures := g.breaker.failures + 1 } ∧
      g.breaker.state = .closed ∧ g.breaker.failures + 1 < threshold) := by
  unfold CircuitBreaker.onFailure
  dsimp only
  rw [h.threshold_eq]
  split_ifs with hc
  · refine .inl ⟨rfl, hc.elim (fun hs => ?_) id⟩
    have : ¬ g.breaker.failures < threshold := fun hlt => by
      have := h.closed_iff.mpr hlt
      rw [hs] at this
      cases this
    omega
  · rw [not_or, not_le] at hc
    exact .inr ⟨rfl, h.closed_iff.mpr (by omega), hc.2⟩

theorem Counted.onFailure (h : Counted threshold g) :
    Counted threshold (g.tell .failure (g.breaker.onFailure g.now)) := by
  have hcount : g.breaker.failures + 1 = consecutiveFailures (.failure :: g.reports) :=
    congrArg (· + 1) h.counter
  rcases onFailure_cases h with ⟨he, hle⟩ | ⟨he, hs, hlt⟩ <;> rw [he]
  · refine ⟨h.threshold_eq, hcount, iff_of_false nofun (not_lt.mpr hle), fun _ => ?_⟩
    unfold Guarded.tell
    dsimp only
    split_ifs with hc
    · exact ⟨le_rfl, le_rfl⟩
    · -- the circuit was open, and opens anew
      have ho : g.breaker.state = .opened := not_not.mp fun hn => hc ⟨rfl, hn⟩
      exact ⟨(h.since ho).1.trans (h.since ho).2, le_rfl⟩
  · refine ⟨h.threshold_eq, hcount, iff_of_true hs hlt, fun ho => ?_⟩
    have ho' : g.breaker.state = .opened := ho
    rw [hs] at ho'
    cases ho'

theorem Counted.finish (hpos : 0 < threshold) (h : Counted threshold g) :
    ∀ o, Counted threshold (g.finish o)
  | .success => h.onSuccess hpos
  | .unavailable => h
  | .failure => h.onFailure

theorem breaker_established {name : Str} {recovery : ℚ} (hpos : 0 < threshold) :
    breakerMachine.Established .free (IsNew name threshold recovery)
      { inv := Counted threshold } := by
  refine Machine.Valid.established ⟨?_, ?_, ?_, ?_, ?_, ?_⟩ Machine.established_trivial
  · rintro w ⟨now, rfl⟩
    exact ⟨rfl, rfl, iff_of_true rfl hpos, nofun⟩
  · intro w r w' t _ _ hs hi
    obtain rfl : w.arrive.1 = w' := congrArg Prod.fst (Option.some.inj hs)
    exact ⟨hi.arrive, trivial, trivial⟩
  · intro w t o w' u _ _ _ hs hi _
    cases t with
    | rejected => cases hs; exact ⟨hi, fun _ _ => trivial, trivial⟩
    | running => cases hs; exact ⟨hi.finish hpos o, fun _ _ => trivial, trivial⟩
  · intro w t _ _ hi _
    exact ⟨hi, trivial⟩
  · intro w e w' _ _ hs hi
    obtain ⟨he, hw⟩ := Option.ite_none_right_eq_some.mp hs
    cases hw
    refine ⟨⟨hi.threshold_eq, hi.counter, hi.closed_iff, fun ho => ?_⟩, trivial⟩
    exact ⟨(hi.since ho).1, (hi.since ho).2.trans (le_add_of_nonneg_right he)⟩
  · intro w w' t _ _ _ _
    trivial

/-! ### The steps -/

/-- A step that leaves the state alone. -/
theorem Documented.of_eq {g g' : Guarded} (h : g'.breaker.state = g.breaker.state) :
    Documented g g' := by
  unfold Documented
  rw [h]
  cases g.breaker.state <;> trivial

theorem documented_arrive (h : Counted threshold g) : Documented g g.arrive.1 := by
  unfold Guarded.arrive CircuitBreaker.beforeCall
  by_cases ho : g.breaker.state = .opened
  · rw [if_pos ho]
    split_ifs with hr
    · have hsince := (h.since ho).1
      unfold Documented
      rw [ho]
      exact ⟨rfl, by linarith⟩
    · exact .of_eq rfl
  · rw [if_neg ho]
    exact .of_eq rfl

theorem documented_failure (h : Counted threshold g) : Documented g (g.finish .failure) := by
  rcases onFailure_cases h with ⟨he, hle⟩ | ⟨he, hs, -⟩
  · unfold Documented Guarded.finish Guarded.tell
    rw [he]
    cases hs : g.breaker.state with
    | closed =>
        -- the counter was below the threshold, and reaches it
        have hlt := h.closed_iff.mp hs
        refine ⟨rfl, ?_⟩
        have hcount : consecutiveFailures (.failure :: g.reports) = g.breaker.failures + 1 :=
          congrArg (· + 1) h.counter.symm
        rw [hcount, h.threshold_eq]
        omega
    | opened => trivial
    | halfOpen => rfl
  · refine .of_eq ?_
    unfold Guarded.finish Guarded.tell
    rw [he]

theorem documented_success : Documented g (g.finish .success) ↔ g.breaker.state ≠ .opened := by
  unfold Documented Guarded.finish Guarded.tell CircuitBreaker.onSuccess
  cases hs : g.breaker.state with
  | closed => exact iff_of_true trivial nofun
  | opened => exact iff_of_false id fun hn => hn rfl
  | halfOpen => exact iff_of_true rfl nofun

/-- **The breaker follows its machine**, in every run of overlapping calls, except where a call
that was admitted earlier succeeds after the circuit has opened. -/
theorem documented_iff {name : Str} {recovery : ℚ} (hpos : 1 ≤ threshold)
    {s s' : Config Guarded BreakerCall} {a : Action Unit Outcome ℚ}
    (hr : breakerMachine.Reach .free (IsNew name threshold recovery) s)
    (hs : breakerMachine.step s a = some s') :
    Documented s.world s'.world ↔ ¬ LateSuccess s a := by
  have hi : Counted threshold s.world := ((breaker_established hpos).holds hr).1
  rcases Machine.step_cases hs with ⟨i, r, w, t, rfl, -, hw, rfl⟩ |
    ⟨i, o, t, w, u, rfl, ht, hw, rfl⟩ | ⟨i, t, rfl, -, rfl⟩ | ⟨e, w, rfl, hw, rfl⟩
  · obtain rfl : s.world.arrive.1 = w := congrArg Prod.fst (Option.some.inj hw)
    exact iff_of_true (documented_arrive hi) id
  · cases t with
    | rejected =>
        cases hw
        refine iff_of_true (.of_eq rfl) fun hl => ?_
        cases o with
        | success =>
            have hrunning : s.tasks i = some .running := hl.1
            rw [ht] at hrunning
            cases hrunning
        | unavailable | failure => exact hl
    | running =>
        cases hw
        cases o with
        | success =>
            refine documented_success.trans (not_congr ⟨fun ho => ⟨ht, ho⟩, fun hl => hl.2⟩)
        | unavailable => exact iff_of_true (.of_eq rfl) id
        | failure => exact iff_of_true (documented_failure hi) id
  · exact iff_of_true (.of_eq rfl) id
  · obtain ⟨-, hw⟩ := Option.ite_none_right_eq_some.mp hw
    cases hw
    exact iff_of_true (.of_eq rfl) id

/-! ### What the counter counts -/

def Outcome.isSuccess : Outcome → Bool
  | .success => true
  | .unavailable | .failure => false

def Outcome.isFailure : Outcome → Bool
  | .failure => true
  | .success | .unavailable => false

/-- The outcome of the call that a step ends.  A call that is cancelled has none. -/
def ended (s : Config Guarded BreakerCall) : Action Unit Outcome ℚ → Option Outcome
  | .resume i o => if s.tasks i = some .running then some o else none
  | .start _ _ | .cancel _ | .environment _ => none

/-- The outcomes of the calls that a run ends, in their order. -/
def outcomes (s : Config Guarded BreakerCall) : List (Action Unit Outcome ℚ) → List Outcome
  | [] => []
  | a :: as =>
      (ended s a).toList ++ (breakerMachine.step s a).elim [] fun s' => outcomes s' as

/-- The ordinary exceptions after the last success. -/
def failuresSinceSuccess (os : List Outcome) : ℕ :=
  (os.reverse.takeWhile fun o => !o.isSuccess).countP Outcome.isFailure

/-- One more call has ended. -/
def tally (n : ℕ) : Outcome → ℕ
  | .success => 0
  | .unavailable => n
  | .failure => n + 1

theorem foldl_tally (os : List Outcome) : os.foldl tally 0 = failuresSinceSuccess os := by
  induction os using List.reverseRecOn with
  | nil => rfl
  | append_singleton os o ih =>
      rw [List.foldl_append, ih]
      unfold failuresSinceSuccess
      rw [List.reverse_append]
      cases o with
      | success => rfl
      | unavailable => rfl
      | failure => exact (List.countP_cons_of_pos rfl).symm

/-- **A step** tells the breaker how the call it ends has ended. -/
theorem reports_step {s s' : Config Guarded BreakerCall} {a : Action Unit Outcome ℚ}
    (hs : breakerMachine.step s a = some s') : consecutiveFailures s'.world.reports =
      (ended s a).toList.foldl tally (consecutiveFailures s.world.reports) := by
  rcases Machine.step_cases hs with ⟨i, r, w, t, rfl, -, hw, rfl⟩ |
    ⟨i, o, t, w, u, rfl, ht, hw, rfl⟩ | ⟨i, t, rfl, -, rfl⟩ | ⟨e, w, rfl, hw, rfl⟩
  · obtain rfl : s.world.arrive.1 = w := congrArg Prod.fst (Option.some.inj hw)
    change consecutiveFailures s.world.arrive.1.reports = consecutiveFailures s.world.reports
    unfold Guarded.arrive
    split <;> rfl
  · cases t with
    | rejected =>
        cases hw
        have hnot : ended s (.resume i o) = none := if_neg (by rw [ht]; decide)
        rw [hnot]
        rfl
    | running =>
        cases hw
        have hended : ended s (.resume i o) = some o := if_pos ht
        rw [hended]
        cases o <;> rfl
  · rfl
  · obtain ⟨-, hw⟩ := Option.ite_none_right_eq_some.mp hw
    cases hw
    rfl

theorem reports_run : ∀ {as : List (Action Unit Outcome ℚ)} {s s' : Config Guarded BreakerCall},
    breakerMachine.run s as = some s' → consecutiveFailures s'.world.reports =
      (outcomes s as).foldl tally (consecutiveFailures s.world.reports)
  | [], _, _, hr => by cases hr; rfl
  | a :: as, s, s', hr => by
      simp only [Machine.run, Option.bind_eq_some_iff] at hr
      obtain ⟨s₁, hs, hr⟩ := hr
      rw [outcomes, hs, List.foldl_append, ← reports_step hs]
      exact reports_run hr

/-- **The failure counter**, in every run of overlapping calls: it is the number of calls that ended
in an ordinary exception since one last succeeded, and the circuit is closed exactly while it is
below the threshold. -/
theorem failures_eq {name : Str} {recovery : ℚ} (hpos : 1 ≤ threshold) {g : Guarded}
    (hg : IsNew name threshold recovery g) {as : List (Action Unit Outcome ℚ)}
    {s : Config Guarded BreakerCall} (hr : breakerMachine.run (Config.idle g) as = some s) :
    s.world.breaker.failures = failuresSinceSuccess (outcomes (Config.idle g) as) ∧
      (s.world.breaker.state = .closed ↔ s.world.breaker.failures < threshold) := by
  have hreach : breakerMachine.Reach .free (IsNew name threshold recovery) s :=
    .run (.idle hg) (Machine.conforms_free _ _) hr
  have hi : Counted threshold s.world := ((breaker_established hpos).holds hreach).1
  refine ⟨?_, hi.closed_iff⟩
  obtain ⟨now, rfl⟩ := hg
  rw [hi.counter, reports_run hr, ← foldl_tally]
  rfl

namespace Sample

/-- A breaker that opens at the first failure. -/
def guarded : Guarded := ⟨.new "opensearch".toList 1 10, 0, [], 0⟩

/-- Two calls are admitted, and the second of them fails. -/
def secondFails : List (Action Unit Outcome ℚ) :=
  [.start 0 (), .start 1 (), .resume 1 .failure]

theorem secondFails_runs : (breakerMachine.run (Config.idle guarded) secondFails).isSome := by
  decide +kernel

/-- The circuit is open, and the first call still running. -/
def afterFailure : Config Guarded BreakerCall :=
  breakerMachine.after guarded secondFails secondFails_runs

theorem afterFailure_reach :
    breakerMachine.Reach .free (IsNew "opensearch".toList 1 10) afterFailure :=
  Machine.reach_after ⟨0, rfl⟩ secondFails_runs (Machine.conforms_free _ _)

/-- The first call succeeds. -/
def afterLateSuccess : Config Guarded BreakerCall :=
  ⟨afterFailure.world.finish .success, Function.update afterFailure.tasks 0 none⟩

theorem afterLateSuccess_step :
    breakerMachine.step afterFailure (.resume 0 .success) = some afterLateSuccess := by
  have h : afterFailure.tasks 0 = some .running := by decide +kernel
  simp only [Machine.step, h]
  rfl

theorem documented_iff_sample : Documented afterFailure.world afterLateSuccess.world ↔
    ¬ LateSuccess afterFailure (.resume 0 .success) :=
  documented_iff (le_refl 1) afterFailure_reach afterLateSuccess_step

theorem failures_eq_sample :
    afterFailure.world.breaker.failures =
        failuresSinceSuccess (outcomes (Config.idle guarded) secondFails) ∧
      (afterFailure.world.breaker.state = .closed ↔ afterFailure.world.breaker.failures < 1) :=
  failures_eq (le_refl 1) (show IsNew "opensearch".toList 1 10 guarded from ⟨0, rfl⟩)
    (Option.some_get secondFails_runs).symm

/-- **`OPEN` to `CLOSED`**, by the success of a call that was admitted before the circuit opened. -/
theorem late_success : ¬ ∀ name threshold recovery, 1 ≤ threshold → 0 ≤ recovery →
    ∀ s s' a, breakerMachine.Reach .free (IsNew name threshold recovery) s →
      breakerMachine.step s a = some s' → Documented s.world s'.world := by
  intro h
  have hd := h _ 1 10 le_rfl (by decide +kernel) _ _ _ afterFailure_reach afterLateSuccess_step
  have hopen : afterFailure.world.breaker.state = .opened := by decide +kernel
  exact documented_success.mp hd hopen

end Sample

end DocSearch
