import DocSearch.Pipeline.Coalescing

/-!
# Pipeline — Leaders

Who answers a coalesced search.  A future gets its result in the step in which its leader returns,
and keeps it; a cancelled leader leaves its future without one for ever.

* `result_step`: a result stays.
* `leader_step`, `leader_run`: what becomes of a leader, in a step and in a run.
* `single_flight`: one leader a key, the future registered is its own, and whoever joined it
  returns what it returned.
-/

namespace DocSearch

open InMemoryEngine SearchService Interleaving SingleFlight

namespace Pipeline

variable {K : Type} {E : SearchEngine K} {rt : Runtime K} {cfg : Settings}

/-- The future has the result. -/
def HasResult (w : World E) (f : ℕ) (a : Except ServiceError (Answer K)) : Prop :=
  ∃ key, w.futures[f]? = some ⟨key, some a⟩

/-- The step ends the search of task `i` with a response or an exception. -/
def ReturnsWith (s s' : Config (World E) (Task K)) (i : ℕ) (a : Except ServiceError (Answer K)) : Prop :=
  s'.tasks i = none ∧ ∃ r st q step g, s.tasks i = some (.search r st q step) ∧
    s'.world.log = (s.world.clock, .searched q.tenantId st g a) :: s.world.log

/-- In the run of `as` from `s`, task `j` returned with `a`, leading the future `p`. -/
def Led (cfg : Settings) (rt : Runtime K) (s : Config (World E) (Task K))
    (as : List (Action Request Str Disturbance)) (j : ℕ) (p : (ℕ × Str) × ℕ)
    (a : Except ServiceError (Answer K)) : Prop :=
  ∃ as₁ c as₂ s₁ s₂, as = as₁ ++ .resume j c :: as₂ ∧ (machine cfg rt E).run s as₁ = some s₁ ∧
    (flightOf rt s₁).leader j = some p ∧ (machine cfg rt E).step s₁ (.resume j c) = some s₂ ∧
    ReturnsWith s₁ s₂ j a

/-! ### Results stay -/

theorem HasResult.register {w : World E} {f : ℕ} {a : Except ServiceError (Answer K)}
    (h : HasResult w f a) (r : ℕ) (key : Str) : HasResult (SearchService.register w r key) f a := by
  obtain ⟨key', hx⟩ := h
  exact ⟨key', futures_register_of_some hx r key⟩

theorem HasResult.settle {w : World E} {f : ℕ} {a : Except ServiceError (Answer K)}
    (h : HasResult w f a) (f' : ℕ) (b : Except ServiceError (Answer K)) :
    HasResult (SearchService.settle w f' b) f a := by
  obtain ⟨key, hx⟩ := h
  refine ⟨key, ?_⟩
  change (w.futures.modify f' _)[f]? = _
  rw [List.getElem?_modify, hx]
  split <;> rfl

/-- A leader that settles an open future gives it its result. -/
theorem hasResult_settle {w : World E} {f : ℕ} (hf : f < w.futures.length)
    (hopen : ¬ ∃ x : Future K, w.futures[f]? = some x ∧ x.result.isSome)
    (a : Except ServiceError (Answer K)) : HasResult (SearchService.settle w f a) f a := by
  have hx := List.getElem?_eq_getElem hf
  rcases hxe : w.futures[f] with ⟨key, result⟩
  refine ⟨key, ?_⟩
  change (w.futures.modify f _)[f]? = _
  rw [List.getElem?_modify, hx, hxe]
  cases result with
  | none => simp
  | some b => exact absurd ⟨_, hx, by rw [hxe]; rfl⟩ hopen

theorem HasResult.of_futures {w w' : World E} {f : ℕ} {a : Except ServiceError (Answer K)}
    (h : HasResult w f a) (hw : w'.futures = w.futures) : HasResult w' f a :=
  h.imp fun _ hx => hw ▸ hx

/-- **A result stays.** -/
theorem result_step {s s' : Config (World E) (Task K)} {act : Action Request Str Disturbance} {f : ℕ}
    {a : Except ServiceError (Answer K)} (hs : (machine cfg rt E).step s act = some s')
    (h : HasResult s.world f a) : HasResult s'.world f a := by
  rcases Machine.step_cases hs with ⟨i, r, w, t, -, -, hw, rfl⟩ | ⟨i, c, t, w, u, -, -, hw, rfl⟩ |
    ⟨i, t, -, -, rfl⟩ | ⟨e, w, -, hw, rfl⟩
  · cases hw
    exact h
  · obtain ⟨⟨w₁, u₁⟩, hr, he⟩ := Option.map_eq_some_iff.mp hw
    cases he
    have hm := resume_move hr
    by_cases hsearch : searching t = false
    · exact h.of_futures (searchFrame_move hm hsearch).1.futures
    cases hm with
    | @led r st q g _ => exact (h.register r (keyOf rt g q)).of_futures rfl
    | @finished r st q g f' b => exact (h.settle f' b).of_futures rfl
    | generationRead | searchHit | searchMiss | joined | followed | executed | engineFailed
    | filled => exact h
    | _ => exact absurd rfl hsearch
  · refine h.of_futures ?_
    rcases cancel_cases rt s.world t with hc | ⟨r, q, g, hc⟩ <;>
      exact (congrArg World.futures hc).trans rfl
  · cases hw
    exact h.of_futures (searchFrame_disturb rt s.world e).futures

/-! ### What becomes of a leader -/

/-- The step that a leader takes. -/
theorem leader_resume {s : Config (World E) (Task K)} {j : ℕ} {c : Str} {t : Task K} {w : World E}
    {u : Option (Task K)} {p : (ℕ × Str) × ℕ} (hsound : Sound (flightOf rt s))
    (ht : s.tasks j = some t) (hl : leaderOf rt t = some p)
    (hr : (machine cfg rt E).resume s.world t c = some (w, u)) :
    u.bind (leaderOf rt) = some p ∨
      ∃ a, HasResult w p.2 a ∧ ReturnsWith s ⟨w, Function.update s.tasks j u⟩ j a := by
  obtain ⟨⟨w₁, u₁⟩, hmove, he⟩ := Option.map_eq_some_iff.mp hr
  cases he
  have hm := resume_move hmove
  have hlead : (flightOf rt s).leader j = some p := by
    change (s.tasks j).bind (leaderOf rt) = some p
    rw [ht]
    exact hl
  cases hm with
  | executed | engineFailed | filled => exact .inl hl
  | @finished r st q g f a =>
      cases hl
      have hopen := (hsound.leads hlead).2
      refine .inr ⟨a, ?_, Function.update_self _ _ _, r, st, q, _, g, ht, rfl⟩
      exact (hasResult_settle (hsound.fresh (hsound.leads hlead).1) hopen a).of_futures rfl
  | _ => cases hl

/-- **What becomes of a leader in a step**: it goes on, it returns and completes its future, or it
is cancelled and leaves it open. -/
theorem leader_step {s s' : Config (World E) (Task K)} {act : Action Request Str Disturbance} {j : ℕ}
    {p : (ℕ × Str) × ℕ} (hsound : Sound (flightOf rt s)) (hl : (flightOf rt s).leader j = some p)
    (hs : (machine cfg rt E).step s act = some s') :
    (flightOf rt s').leader j = some p ∨
      (∃ c a, act = .resume j c ∧ HasResult s'.world p.2 a ∧ ReturnsWith s s' j a) ∨
      Abandoned (flightOf rt s') p.2 := by
  obtain ⟨t, ht, hlt⟩ := Option.bind_eq_some_iff.mp
    (show (s.tasks j).bind (leaderOf rt) = some p from hl)
  -- a step of another task leaves the leader alone
  have other : ∀ {w : World E} {i : ℕ} {u : Option (Task K)}, i ≠ j →
      (flightOf rt ⟨w, Function.update s.tasks i u⟩).leader j = some p := by
    intro w i u hij
    change (Function.update s.tasks i u j).bind (leaderOf rt) = some p
    rw [Function.update_of_ne hij.symm, ht]
    exact hlt
  rcases Machine.step_cases hs with ⟨i, r, w, t', rfl, hnone, hw, rfl⟩ |
    ⟨i, c, t', w, u, rfl, ht', hw, rfl⟩ | ⟨i, t', rfl, ht', -⟩ | ⟨e, w, rfl, hw, rfl⟩
  · refine .inl (other ?_)
    rintro rfl
    rw [ht] at hnone
    cases hnone
  · by_cases hij : i = j
    · subst hij
      cases ht.symm.trans ht'
      rcases leader_resume hsound ht hlt hw with hu | ⟨a, hres, hret⟩
      · refine .inl ?_
        change (Function.update s.tasks i u i).bind (leaderOf rt) = some p
        rw [Function.update_self]
        exact hu
      · exact .inr (.inl ⟨c, a, rfl, hres, hret⟩)
    · exact .inl (other hij)
  · by_cases hij : i = j
    · subst hij
      rw [flight_cancel hs hl]
      exact .inr (.inr (abandoned_of_leader hsound hl))
    · rcases Machine.step_cases hs with ⟨_, _, _, _, ha, -⟩ | ⟨_, _, _, _, _, ha, -⟩ |
        ⟨_, _, ha, -, rfl⟩ | ⟨_, _, ha, -⟩ <;> cases ha
      exact .inl (other hij)
  · cases hw
    exact .inl hl

/-- A future left open stays open, in a step of the service. -/
theorem abandoned_step {s s' : Config (World E) (Task K)} {act : Action Request Str Disturbance}
    {f : ℕ} (hsound : Sound (flightOf rt s)) (h : Abandoned (flightOf rt s) f)
    (hs : (machine cfg rt E).step s act = some s') : Abandoned (flightOf rt s') f := by
  by_cases hc : ∀ i, act = .cancel i → (flightOf rt s).leader i = none
  · exact h.step (flight_step hsound hs hc)
  · push Not at hc
    obtain ⟨i, rfl, hl⟩ := hc
    obtain ⟨⟨k, f'⟩, hl⟩ := Option.ne_none_iff_exists'.mp hl
    rw [flight_cancel hs hl]
    exact h.abandon i k

theorem Led.cons {s s₁ : Config (World E) (Task K)} {act : Action Request Str Disturbance}
    {as : List (Action Request Str Disturbance)} {j : ℕ} {p : (ℕ × Str) × ℕ}
    {a : Except ServiceError (Answer K)} (hs : (machine cfg rt E).step s act = some s₁)
    (h : Led cfg rt s₁ as j p a) : Led cfg rt s (act :: as) j p a := by
  obtain ⟨as₁, c, as₂, s₂, s₃, rfl, hrun, hl, hstep, hret⟩ := h
  refine ⟨act :: as₁, c, as₂, s₂, s₃, rfl, ?_, hl, hstep, hret⟩
  rw [Machine.run, hs]
  exact hrun

theorem result_run : ∀ {as : List (Action Request Str Disturbance)}
    {s s' : Config (World E) (Task K)} {f : ℕ} {a : Except ServiceError (Answer K)},
    (machine cfg rt E).run s as = some s' → HasResult s.world f a → HasResult s'.world f a
  | [], _, _, _, _, hr, h => by cases hr; exact h
  | _ :: _, _, _, _, _, hr, h => by
      simp only [Machine.run, Option.bind_eq_some_iff] at hr
      obtain ⟨s₁, hs, hr⟩ := hr
      exact result_run hr (result_step hs h)

theorem abandoned_run : ∀ {as : List (Action Request Str Disturbance)}
    {s s' : Config (World E) (Task K)} {f : ℕ}, Sound (flightOf rt s) →
    Abandoned (flightOf rt s) f → (machine cfg rt E).run s as = some s' →
      Abandoned (flightOf rt s') f
  | [], _, _, _, _, h, hr => by cases hr; exact h
  | _ :: _, _, _, _, hsound, h, hr => by
      simp only [Machine.run, Option.bind_eq_some_iff] at hr
      obtain ⟨s₁, hs, hr⟩ := hr
      exact abandoned_run (flight_sound hsound hs) (abandoned_step hsound h hs) hr

/-- **What becomes of a leader in a run.** -/
theorem leader_run : ∀ {as : List (Action Request Str Disturbance)}
    {s s' : Config (World E) (Task K)} {j : ℕ} {p : (ℕ × Str) × ℕ}, Sound (flightOf rt s) →
    (flightOf rt s).leader j = some p → (machine cfg rt E).run s as = some s' →
      (flightOf rt s').leader j = some p ∨
        (∃ a, HasResult s'.world p.2 a ∧ Led cfg rt s as j p a) ∨ Abandoned (flightOf rt s') p.2
  | [], _, _, _, _, _, hl, hr => by cases hr; exact .inl hl
  | act :: as, s, s', j, p, hsound, hl, hr => by
      simp only [Machine.run, Option.bind_eq_some_iff] at hr
      obtain ⟨s₁, hs, hr⟩ := hr
      rcases leader_step hsound hl hs with hl₁ | ⟨c, a, rfl, hres, hret⟩ | hopen
      · refine (leader_run (flight_sound hsound hs) hl₁ hr).imp id (.imp ?_ id)
        rintro ⟨a, hres, hled⟩
        exact ⟨a, hres, hled.cons hs⟩
      · refine .inr (.inl ⟨a, result_run hr hres, [], c, as, s, s₁, rfl, rfl, hl, hs, hret⟩)
      · exact .inr (.inr (abandoned_run (flight_sound hsound hs) hopen hr))

/-! ### Followers -/

/-- A search that waits returns the result of its future. -/
theorem follower_returns {s s' : Config (World E) (Task K)} {i r st g f : ℕ} {q : SearchQuery} {c : Str}
    (ht : s.tasks i = some (.search r st q (.waiting g f)))
    (hs : (machine cfg rt E).step s (.resume i c) = some s') :
    ∃ a, HasResult s.world f a ∧ ReturnsWith s s' i a := by
  rcases Machine.step_cases hs with ⟨_, _, _, _, ha, -⟩ | ⟨_, _, t, w, u, ha, ht', hw, rfl⟩ |
    ⟨_, _, ha, -⟩ | ⟨_, _, ha, -⟩ <;> cases ha
  cases ht.symm.trans ht'
  obtain ⟨⟨w₁, u₁⟩, hr, he⟩ := Option.map_eq_some_iff.mp hw
  cases he
  cases resume_move hr with
  | @followed _ _ _ _ _ k a hf =>
      exact ⟨a, ⟨k, hf⟩, Function.update_self _ _ _, r, st, q, _, g, ht, rfl⟩

/-! ### Every run -/

theorem sound_reach {engine : E.State} {s : Config (World E) (Task K)}
    (hr : (machine cfg rt E).Reach .free (World.IsInitial engine) s) : Sound (flightOf rt s) := by
  induction hr with
  | idle h => exact (flight_idle h).1
  | step _ _ hs ih => exact flight_sound ih hs

/-- The search of task `i` joins the future `f`, registered under its key. -/
structure Joins (rt : Runtime K) (s : Config (World E) (Task K)) (i r st : ℕ) (q : SearchQuery)
    (g f : ℕ) : Prop where
  task : s.tasks i = some (.search r st q (.flight g))
  registered : s.world.inflight r (keyOf rt g q) = some f

/-- Whoever joined a future returns what its leader returned: a search that joins one in `s` joins
it with a leader, and if it returns from its wait on it, this leader has returned before, with the
same result. -/
def FollowersServed (cfg : Settings) (rt : Runtime K) (s : Config (World E) (Task K)) : Prop :=
  ∀ i r st q g f, Joins rt s i r st q g f →
    ∃ j, (flightOf rt s).leader j = some ((r, keyOf rt g q), f) ∧
      ∀ as s₁ c s₂, (machine cfg rt E).run s as = some s₁ →
        s₁.tasks i = some (.search r st q (.waiting g f)) →
        (machine cfg rt E).step s₁ (.resume i c) = some s₂ →
        ∃ a, ReturnsWith s₁ s₂ i a ∧ Led cfg rt s as j ((r, keyOf rt g q), f) a

/-- **Single flight**, in every reachable state: one leader a key at most, the future registered
under a key is its leader's own, and followers return what their leaders return. -/
theorem single_flight {engine : E.State} {s : Config (World E) (Task K)}
    (hr : (machine cfg rt E).Reach .free (World.IsInitial engine) s) :
    (∀ i j k f f', (flightOf rt s).leader i = some (k, f) →
      (flightOf rt s).leader j = some (k, f') → i = j) ∧
    (∀ k f, (flightOf rt s).registered k = some f ↔ ∃ i, (flightOf rt s).leader i = some (k, f)) ∧
    FollowersServed cfg rt s := by
  have hsound := sound_reach hr
  refine ⟨fun i j k f f' => hsound.unique, fun k f => ⟨hsound.led, fun ⟨i, hi⟩ => (hsound.leads hi).1⟩,
    fun i r st q g f hjoin => ?_⟩
  obtain ⟨j, hj⟩ := hsound.led
    (show (flightOf rt s).registered (r, keyOf rt g q) = some f from hjoin.registered)
  refine ⟨j, hj, fun as s₁ c s₂ hrun hwait hs => ?_⟩
  have hsound₁ : Sound (flightOf rt s₁) := sound_reach (hr.run (Machine.conforms_free as s) hrun)
  obtain ⟨a, ⟨key, hres⟩, hret⟩ := follower_returns hwait hs
  have hcompleted : (flightOf rt s₁).completed f := ⟨_, hres, rfl⟩
  rcases leader_run hsound hj hrun with hl | ⟨b, ⟨key', hres'⟩, hled⟩ | hopen
  · -- the leader is still running
    exact absurd hcompleted (hsound₁.leads hl).2
  · cases hres.symm.trans hres'
    exact ⟨a, hret, hled⟩
  · exact absurd hcompleted hopen.unanswered

end Pipeline

namespace Sample

open Pipeline

/-- Two identical searches: the first leads, and the second is about to join it. -/
def joining : Actions :=
  [.start 0 (.search 0 (query acme)), .start 1 (.search 0 (query acme)), .resume 0 [], .resume 1 [],
    .resume 0 [], .resume 1 [], .resume 0 []]

theorem joining_runs : (service.run (Config.idle start) joining).isSome := by decide +kernel

theorem single_flight_sample :
    (∀ i j k f f', (flightOf runtime (service.after start joining joining_runs)).leader i = some (k, f) →
      (flightOf runtime (service.after start joining joining_runs)).leader j = some (k, f') → i = j) ∧
    (∀ k f, (flightOf runtime (service.after start joining joining_runs)).registered k = some f ↔
      ∃ i, (flightOf runtime (service.after start joining joining_runs)).leader i = some (k, f)) ∧
    FollowersServed settings runtime (service.after start joining joining_runs) :=
  single_flight (Machine.reach_after start_isInitial joining_runs (Machine.conforms_free _ _))

end Sample

end DocSearch
