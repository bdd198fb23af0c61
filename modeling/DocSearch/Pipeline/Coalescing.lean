import DocSearch.Pipeline.Index
import DocSearch.Pipeline.Searches
import DocSearch.Support.SingleFlight

/-!
# Pipeline — Coalescing

`_inflight` as a table of futures, one for each replica, seen as a single flight.

* `flightOf`: the futures registered, and the searches that lead and follow.
* `flight_step`, `flight_cancel`: a step of the service is a step of the flight, and the
  cancellation of a leader an abandoned future.  `except Exception` does not see a cancellation, so
  only the `finally` runs.
* `none_hanging`: no coalesced search is left hanging, as long as no leader is cancelled whose
  future is waited for.
-/

namespace DocSearch

open InMemoryEngine SearchService Interleaving SingleFlight

namespace Pipeline

variable {K : Type} {E : SearchEngine K} {rt : Runtime K}

/-- The key and the future a search leads. -/
def leaderOf (rt : Runtime K) : Task K → Option ((ℕ × Str) × ℕ)
  | .search r _ q (.execute g f) | .search r _ q (.fill g f _) | .search r _ q (.finish g f _) =>
      some ((r, keyOf rt g q), f)
  | _ => none

/-- The key and the future a search waits on. -/
def followerOf (rt : Runtime K) : Task K → Option ((ℕ × Str) × ℕ)
  | .search r _ q (.waiting g f) => some ((r, keyOf rt g q), f)
  | _ => none

/-- The futures of a world, with the leaders and followers of a list of tasks. -/
def flightOf (rt : Runtime K) (s : Config (World E) (Task K)) : Flight (ℕ × Str) where
  registered k := s.world.inflight k.1 k.2
  completed f := ∃ x : Future K, s.world.futures[f]? = some x ∧ x.result.isSome
  issued := s.world.futures.length
  leader i := (s.tasks i).bind (leaderOf rt)
  follower i := (s.tasks i).bind (followerOf rt)

/-! ### Steps -/

theorem leaderOf_of_not_searching {t : Task K} (h : searching t = false) : leaderOf rt t = none := by
  cases t with
  | search => cases h
  | _ => rfl

theorem followerOf_of_not_searching {t : Task K} (h : searching t = false) :
    followerOf rt t = none := by
  cases t with
  | search => cases h
  | _ => rfl

theorem bind_update {α β : Type*} (g : α → Option β) (f : ℕ → Option α) (i : ℕ) (o : Option α) :
    (fun j => (Function.update f i o j).bind g) =
      Function.update (fun j => (f j).bind g) i (o.bind g) := by
  funext j
  by_cases h : j = i
  · subst h
    simp
  · simp [Function.update_of_ne h]

/-- Task `i` steps in the flight. -/
theorem flightOf_update (w : World E) (f : ℕ → Option (Task K)) (i : ℕ) (u : Option (Task K)) :
    flightOf rt ⟨w, Function.update f i u⟩ = { flightOf rt ⟨w, f⟩ with
      leader := Function.update (flightOf rt ⟨w, f⟩).leader i (u.bind (leaderOf rt))
      follower := Function.update (flightOf rt ⟨w, f⟩).follower i (u.bind (followerOf rt)) } := by
  unfold flightOf
  rw [bind_update, bind_update]

/-- The flight sees the futures and `_inflight` alone. -/
theorem flightOf_congr {w w' : World E} (hf : w'.futures = w.futures)
    (hi : w'.inflight = w.inflight) (f : ℕ → Option (Task K)) :
    flightOf rt ⟨w', f⟩ = flightOf rt ⟨w, f⟩ := by
  unfold flightOf
  rw [hf, hi]

/-- A task that neither leads nor follows more or less than before. -/
theorem flightOf_same {w w' : World E} {f : ℕ → Option (Task K)} {i : ℕ} {u : Option (Task K)}
    (hf : w'.futures = w.futures) (hi : w'.inflight = w.inflight)
    (hl : u.bind (leaderOf rt) = (f i).bind (leaderOf rt))
    (hw : u.bind (followerOf rt) = (f i).bind (followerOf rt)) :
    flightOf rt ⟨w', Function.update f i u⟩ = flightOf rt ⟨w, f⟩ := by
  rw [flightOf_update, flightOf_congr hf hi, hl, hw]
  unfold flightOf
  simp only [Function.update_eq_self]

theorem completed_register (w : World E) (r : ℕ) (key : Str) (f : ℕ) :
    (∃ x : Future K, (register w r key).futures[f]? = some x ∧ x.result.isSome) ↔
      ∃ x : Future K, w.futures[f]? = some x ∧ x.result.isSome := by
  constructor
  · rintro ⟨x, hx, hr⟩
    rcases futures_register hx with hx | rfl
    · exact ⟨x, hx, hr⟩
    · -- the new future has no result
      cases hr
  · rintro ⟨x, hx, hr⟩
    exact ⟨x, futures_register_of_some hx r key, hr⟩

theorem completed_settle {w : World E} {f : ℕ} (hf : f < w.futures.length)
    (a : Except ServiceError (Answer K)) (f' : ℕ) :
    (∃ x : Future K, (settle w f a).futures[f']? = some x ∧ x.result.isSome) ↔
      f' = f ∨ ∃ x : Future K, w.futures[f']? = some x ∧ x.result.isSome := by
  change (∃ x : Future K, (w.futures.modify f _)[f']? = some x ∧ x.result.isSome) ↔ _
  rw [List.getElem?_modify]
  by_cases h : f = f'
  · subst h
    rw [List.getElem?_eq_getElem hf]
    refine iff_of_true ?_ (.inl rfl)
    refine ⟨_, rfl, ?_⟩
    simp only [if_true]
    split
    · rename_i hr
      rw [hr]
      rfl
    · rfl
  · simp [h, Ne.symm h]

/-- A search registers a future. -/
theorem flightOf_register {w : World E} {f : ℕ → Option (Task K)} {i r : ℕ} {q : SearchQuery} {s g : ℕ}
    (hw : (f i).bind (followerOf rt) = none) :
    flightOf rt ⟨register w r (keyOf rt g q),
        Function.update f i (some (.search r s q (.execute g w.futures.length)))⟩ =
      (flightOf rt ⟨w, f⟩).lead i (r, keyOf rt g q) := by
  rw [flightOf_update]
  ext : 1
  · exact uncurry_update _ _ _ _
  · funext f'
    exact propext (completed_register w r _ f')
  · exact List.length_append
  · rfl
  · exact Function.update_eq_self_iff.mpr hw.symm

/-- The table after a key is taken out of it. -/
theorem flightOf_unregister {w : World E} {f : ℕ → Option (Task K)} {i r : ℕ} {key : Str}
    (hw : (f i).bind (followerOf rt) = none) :
    flightOf rt ⟨unregister w r key, Function.update f i none⟩ =
      (flightOf rt ⟨w, f⟩).abandon i (r, key) := by
  rw [flightOf_update]
  ext : 1
  · exact uncurry_update _ _ _ _
  · rfl
  · rfl
  · rfl
  · exact Function.update_eq_self_iff.mpr hw.symm

/-- A search starts to wait. -/
theorem flightOf_join {s : Config (World E) (Task K)} {i r f st g : ℕ} {q : SearchQuery}
    (hl : (s.tasks i).bind (leaderOf rt) = none) :
    flightOf rt ⟨s.world, Function.update s.tasks i (some (.search r st q (.waiting g f)))⟩ =
      (flightOf rt s).join i (r, keyOf rt g q) f := by
  rw [flightOf_update]
  ext : 1
  · rfl
  · rfl
  · rfl
  · exact Function.update_eq_self_iff.mpr hl.symm
  · rfl

/-- A search that does not lead returns. -/
theorem flightOf_leave {s : Config (World E) (Task K)} {i : ℕ}
    (hl : (s.tasks i).bind (leaderOf rt) = none) :
    flightOf rt ⟨s.world, Function.update s.tasks i none⟩ = (flightOf rt s).leave i := by
  rw [flightOf_update]
  ext : 1
  · rfl
  · rfl
  · rfl
  · exact Function.update_eq_self_iff.mpr hl.symm
  · rfl

/-- A leader settles its future and returns. -/
theorem flightOf_land {s : Config (World E) (Task K)} {i r f : ℕ} {key : Str}
    (hw : (s.tasks i).bind (followerOf rt) = none) (hf : f < s.world.futures.length)
    (a : Except ServiceError (Answer K)) :
    flightOf rt ⟨unregister (settle s.world f a) r key, Function.update s.tasks i none⟩ =
      (flightOf rt s).land i (r, key) f := by
  rw [flightOf_unregister hw]
  ext : 1
  · rfl
  · funext f'
    exact propext (completed_settle hf a f')
  · exact List.length_modify _ _ _
  · rfl
  · rfl

/-- **A step of the service is a step of the flight**, unless it cancels a leader. -/
theorem flight_step {cfg : Settings} {s s' : Config (World E) (Task K)}
    {a : Action Request Str Disturbance} (h : Sound (flightOf rt s))
    (hs : (machine cfg rt E).step s a = some s')
    (hc : ∀ i, a = .cancel i → (flightOf rt s).leader i = none) :
    Step (flightOf rt s) (flightOf rt s') := by
  -- a step that the flight does not see
  have unseen : ∀ {w : World E} {i : ℕ} {u : Option (Task K)}, w.futures = s.world.futures →
      w.inflight = s.world.inflight → u.bind (leaderOf rt) = (s.tasks i).bind (leaderOf rt) →
      u.bind (followerOf rt) = (s.tasks i).bind (followerOf rt) →
      Step (flightOf rt s) (flightOf rt ⟨w, Function.update s.tasks i u⟩) := by
    intro w i u hf hi hl hw
    rw [flightOf_same hf hi hl hw]
    exact .stay
  -- what a move does besides is not seen either
  have besides : ∀ (w : World E) {w' : World E} {f : ℕ → Option (Task K)}, w'.futures = w.futures →
      w'.inflight = w.inflight → Step (flightOf rt s) (flightOf rt ⟨w, f⟩) →
      Step (flightOf rt s) (flightOf rt ⟨w', f⟩) := by
    intro w w' f hf hi hw
    rw [flightOf_congr hf hi]
    exact hw
  rcases Machine.step_cases hs with ⟨i, r, w, t, rfl, ht, hw, rfl⟩ |
    ⟨i, c, t, w, u, rfl, ht, hw, rfl⟩ | ⟨i, t, rfl, ht, rfl⟩ | ⟨e, w, rfl, hw, rfl⟩
  · cases hw
    refine unseen rfl rfl ?_ ?_ <;> rw [ht] <;> cases r <;> rfl
  · obtain ⟨⟨w₁, u₁⟩, hr, he⟩ := Option.map_eq_some_iff.mp hw
    cases he
    have hm := resume_move hr
    by_cases hsearch : searching t = false
    · obtain ⟨hf, hu⟩ := searchFrame_move hm hsearch
      refine unseen hf.futures hf.inflight ?_ ?_ <;> rw [ht]
      · rw [Option.bind_eq_none_iff.mpr fun t' h' => leaderOf_of_not_searching (hu t' h')]
        exact (leaderOf_of_not_searching hsearch).symm
      · rw [Option.bind_eq_none_iff.mpr fun t' h' => followerOf_of_not_searching (hu t' h')]
        exact (followerOf_of_not_searching hsearch).symm
    cases hm with
    | generationRead | searchHit | searchMiss | executed | engineFailed | filled =>
        refine unseen rfl rfl ?_ ?_ <;> rw [ht] <;> rfl
    | @joined r st q g f hk =>
        refine besides s.world rfl rfl ?_
        rw [flightOf_join (by rw [ht]; rfl)]
        exact .join hk
    | @led r st q g hk =>
        refine besides (register s.world r (keyOf rt g q)) rfl rfl ?_
        rw [flightOf_register (by rw [ht]; rfl)]
        refine .lead hk ?_
        change (s.tasks i).bind (leaderOf rt) = none
        rw [ht]
        rfl
    | followed =>
        refine besides s.world rfl rfl ?_
        rw [flightOf_leave (by rw [ht]; rfl)]
        exact .leave
    | @finished r st q g f res =>
        have hl : (flightOf rt s).leader i = some ((r, keyOf rt g q), f) := by
          change (s.tasks i).bind (leaderOf rt) = _
          rw [ht]
          rfl
        refine besides (unregister (settle s.world f res) r (keyOf rt g q)) rfl rfl ?_
        rw [flightOf_land (by rw [ht]; rfl) (h.fresh (h.leads hl).1)]
        exact .land hl
    | _ => exact absurd rfl hsearch
  · have hl := hc i rfl
    have hcancel : cancel rt s.world t = s.world := by
      change (s.tasks i).bind (leaderOf rt) = none at hl
      rw [ht] at hl
      cases t with
      | search r st q step => cases step <;> first | rfl | cases hl
      | _ => rfl
    change Step _ (flightOf rt ⟨cancel rt s.world t, _⟩)
    rw [hcancel, flightOf_leave hl]
    exact .leave
  · cases hw
    have hf := searchFrame_disturb rt s.world e
    have he : flightOf rt ⟨(disturb s.world e).tick, s.tasks⟩ = flightOf rt s :=
      flightOf_congr hf.futures hf.inflight _
    rw [he]
    exact .stay

/-- **A cancelled leader abandons its future.** -/
theorem flight_cancel {cfg : Settings} {s s' : Config (World E) (Task K)} {i : ℕ} {k : ℕ × Str}
    {f : ℕ} (hs : (machine cfg rt E).step s (.cancel i) = some s')
    (hl : (flightOf rt s).leader i = some (k, f)) :
    flightOf rt s' = (flightOf rt s).abandon i k := by
  rcases Machine.step_cases hs with ⟨_, _, _, _, ha, -⟩ | ⟨_, _, _, _, _, ha, -⟩ |
    ⟨_, t, ha, ht, rfl⟩ | ⟨_, _, ha, -⟩ <;> cases ha
  change (s.tasks i).bind (leaderOf rt) = _ at hl
  rw [ht] at hl
  cases t with
  | search r st q step =>
      cases step with
      | generation | cacheRead | flight | waiting => cases hl
      | execute | fill | finish =>
          cases hl
          exact flightOf_unregister (by rw [ht]; rfl)
  | _ => cases hl

/-! ### Runs -/

/-- The step does not cancel a leader whose future is waited for. -/
def SparesLeaders (rt : Runtime K) (s : Config (World E) (Task K)) :
    Action Request Str Disturbance → Prop
  | .cancel i => ∀ p, (flightOf rt s).leader i = some p → ∀ j, (flightOf rt s).follower j ≠ some p
  | .start _ _ | .resume _ _ | .environment _ => True

/-- A run without a cancellation spares every leader. -/
theorem spares_uncancelled {cfg : Settings} :
    ∀ {as : List (Action Request Str Disturbance)} {s : Config (World E) (Task K)},
      (as.all fun a => match a with | .cancel _ => false | _ => true) = true →
        (machine cfg rt E).ConformsBy (SparesLeaders rt) s as
  | [], _, _ => trivial
  | a :: as, s, h => by
      rw [List.all_cons, Bool.and_eq_true] at h
      refine ⟨?_, fun s' _ => spares_uncancelled h.2⟩
      cases a with
      | cancel i => cases h.1
      | _ => trivial

/-- **A key is in `_inflight` exactly while its leader runs**, after a step. -/
theorem flight_sound {cfg : Settings} {s s' : Config (World E) (Task K)}
    {a : Action Request Str Disturbance} (h : Sound (flightOf rt s))
    (hs : (machine cfg rt E).step s a = some s') : Sound (flightOf rt s') := by
  by_cases hc : ∀ i, a = .cancel i → (flightOf rt s).leader i = none
  · exact (flight_step h hs hc).sound h
  · push Not at hc
    obtain ⟨i, rfl, hl⟩ := hc
    obtain ⟨⟨k, f⟩, hl⟩ := Option.ne_none_iff_exists'.mp hl
    rw [flight_cancel hs hl]
    exact h.abandon hl

/-- **Who hangs**, after a step: the followers of a leader that it cancels. -/
theorem noneHanging_iff {cfg : Settings} {s s' : Config (World E) (Task K)}
    {a : Action Request Str Disturbance} (h : Sound (flightOf rt s)) (hn : NoneHanging (flightOf rt s))
    (hs : (machine cfg rt E).step s a = some s') :
    NoneHanging (flightOf rt s') ↔ SparesLeaders rt s a := by
  by_cases hc : ∀ i, a = .cancel i → (flightOf rt s).leader i = none
  · refine iff_of_true ((flight_step h hs hc).noneHanging h hn) ?_
    cases a with
    | cancel i =>
        intro p hp
        rw [hc i rfl] at hp
        cases hp
    | _ => trivial
  · push Not at hc
    obtain ⟨i, rfl, hl⟩ := hc
    obtain ⟨⟨k, f⟩, hl⟩ := Option.ne_none_iff_exists'.mp hl
    rw [flight_cancel hs hl, noneHanging_abandon_iff h hn hl]
    constructor
    · intro hno p hp
      rw [hl] at hp
      cases hp
      exact hno
    · exact fun hno => hno _ hl

theorem flight_idle {w : World E} {engine : E.State} (hw : World.IsInitial engine w) :
    Sound (flightOf rt (Config.idle w)) ∧ NoneHanging (flightOf rt (Config.idle w)) := by
  subst hw
  refine ⟨⟨nofun, nofun, nofun, nofun, ?_, nofun⟩, nofun⟩
  rintro f ⟨x, hx, -⟩
  cases hx

/-- **No coalesced search is left hanging.**  Whoever waits on a future of `_inflight` waits on one
that is completed, or that is still registered with its leader running, on every run that cancels
no leader whose future is waited for.  The next step keeps this exactly when it does not. -/
theorem none_hanging {cfg : Settings} {engine : E.State} {s : Config (World E) (Task K)}
    (hr : (machine cfg rt E).ReachBy (SparesLeaders rt) (World.IsInitial engine) s) :
    NoneHanging (flightOf rt s) ∧
      ∀ a s', (machine cfg rt E).step s a = some s' →
        (NoneHanging (flightOf rt s') ↔ SparesLeaders rt s a) := by
  have hi : Sound (flightOf rt s) ∧ NoneHanging (flightOf rt s) := by
    refine hr.rule (I := fun s => Sound (flightOf rt s) ∧ NoneHanging (flightOf rt s))
      (fun w hw => flight_idle hw) fun s s' a _ hQ hs hi => ?_
    exact ⟨flight_sound hi.1 hs, (noneHanging_iff hi.1 hi.2 hs).mpr hQ⟩
  exact ⟨hi.2, fun a s' hs => noneHanging_iff hi.1 hi.2 hs⟩

end Pipeline

namespace Sample

/-- Two identical searches: the first leads and the second waits. -/
def coalesced : Actions :=
  [.start 0 (.search 0 (query acme)), .start 1 (.search 0 (query acme)), .resume 0 [],
    .resume 1 [], .resume 0 [], .resume 1 [], .resume 0 [], .resume 1 []]

theorem coalesced_runs : (service.run (Config.idle start) coalesced).isSome := by decide +kernel

theorem none_hanging_sample :
    NoneHanging (Pipeline.flightOf runtime (service.after start coalesced coalesced_runs)) ∧
      ∀ a s', service.step (service.after start coalesced coalesced_runs) a = some s' →
        (NoneHanging (Pipeline.flightOf runtime s') ↔
          Pipeline.SparesLeaders runtime (service.after start coalesced coalesced_runs) a) :=
  Pipeline.none_hanging (Machine.reachBy_after start_isInitial coalesced_runs
    (Pipeline.spares_uncancelled rfl))

/-- The leader is cancelled while the second search waits. -/
def cancelledLeader : Actions := coalesced ++ [.cancel 0]

theorem cancelledLeader_runs : (service.run (Config.idle start) cancelledLeader).isSome := by
  decide +kernel

/-- What is left of it. -/
def hanging : Flight (ℕ × Str) :=
  Pipeline.flightOf runtime (service.after start cancelledLeader cancelledLeader_runs)

theorem hanging_follower : (hanging.follower 1).isSome := by decide +kernel

theorem hanging_unregistered :
    (hanging.follower 1).all fun p => (hanging.registered p.1).isNone := by decide +kernel

theorem hanging_open : (service.after start cancelledLeader cancelledLeader_runs).world.futures.all
    fun x => x.result.isNone := by decide +kernel

/-- **A search that never returns.**  Its future is not completed, and nobody leads it any more. -/
theorem left_hanging : ¬ ∀ s, service.Reach .free (World.IsInitial State.initial) s →
    NoneHanging (Pipeline.flightOf runtime s) := by
  intro h
  have hn : NoneHanging hanging :=
    h _ (Machine.reach_after start_isInitial cancelledLeader_runs (Machine.conforms_free _ _))
  obtain ⟨⟨k, f⟩, hf⟩ := Option.isSome_iff_exists.mp hanging_follower
  have hk := hanging_unregistered
  rw [hf] at hk
  rcases hn 1 k f hf with ⟨x, hx, hr⟩ | ⟨hr, -⟩
  · have ho := List.all_eq_true.mp hanging_open x (List.mem_of_getElem? hx)
    rw [Option.isNone_iff_eq_none.mp ho] at hr
    cases hr
  · rw [Option.all_some, hr] at hk
    cases hk

end Sample

end DocSearch
