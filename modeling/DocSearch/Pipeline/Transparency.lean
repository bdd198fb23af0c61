import DocSearch.Pipeline.Index
import DocSearch.Pipeline.Searches
import DocSearch.Services.Normalization

/-!
# Pipeline — Transparency

Searches over one index: what a search returns from the cache, from the future of an identical
search or from the engine, against the answer the engine gives to that very query.

* `sameIndex Q`: the searches are those of `Q`, and nothing is written to the index.
* `Direct`: a result is the engine's for every query under a key, but for the text it echoes.
* `search_transparent`: every result is the engine's in every field but `cached`, `took_ms` and
  `query`, and in `query` when what is served was computed for the same text.
-/

namespace DocSearch

open InMemoryEngine SearchService IndexingProcessor Interleaving

namespace Pipeline

/-- The response, less the fields that tell how it was served. -/
def contentOf {K : Type} (a : Answer K) : SearchResponse K := (a.withCached false).response

/-! ### Moves over one index -/

/-- Only a bulk call writes the index. -/
theorem engine_move {K : Type} {E : SearchEngine K} {cfg : Settings} {rt : Runtime K}
    {w w' : World E} {t : Task K} {u : Option (Task K)} (h : Move cfg rt w t w' u)
    (ht : ∀ p, t ≠ .process (.bulk p)) : w'.engine = w.engine := by
  cases h with
  | bulkRaised | bulkReturned => exact absurd rfl (ht _)
  | indexPublished | deleted => exact publish_engine _ _
  | republished h =>
      obtain ⟨-, rfl⟩ := World.publish_eq_some h
      rfl
  | committed h => exact (proceed_frame h).2.1
  | bumped _ h => exact (proceed_frame h).2.1.trans (bump_engine _ _ _)
  | _ => rfl

section Outline

variable {K : Type} [Field K] [LinearOrder K] {rt : Runtime K} {Q : SearchQuery → Prop} {st : State}

/-- Searches of a set of queries, and whatever leaves the index alone. -/
def sameIndex (rt : Runtime K) (Q : SearchQuery → Prop) :
    Restriction (World (inMemory rt)) (Task K) Request Disturbance where
  start _ r :=
    match r with
    | .search _ q => Q q
    | .process _ => False
    | _ => True
  environment _ e :=
    match e with
    | .engine _ => False
    | _ => True

instance [DecidablePred Q] (w : World (inMemory rt)) :
    (r : Request) → Decidable ((sameIndex rt Q).start w r)
  | .search _ q => inferInstanceAs (Decidable (Q q))
  | .process _ => .isFalse id
  | .create _ _ _ | .get _ _ | .delete _ _ | .sweep => .isTrue trivial

instance (w : World (inMemory rt)) (t : Task K) : Decidable ((sameIndex rt Q).resume w t) :=
  .isTrue trivial

instance (w : World (inMemory rt)) : (e : Disturbance) → Decidable ((sameIndex rt Q).environment w e)
  | .engine _ => .isFalse id
  | .cache _ | .expire _ | .elapse _ | .lose _ | .refresh | .publisher _ => .isTrue trivial

/-- Nothing has been served from the index yet. -/
structure Unserved (rt : Runtime K) (st : State) (w : World (inMemory rt)) : Prop where
  engine : w.engine = st
  entries : ∀ g q, w.cache.store (keyOf rt g q) = none
  futures : w.futures = []
  inflight : ∀ r key, w.inflight r key = none

/-- What the engine answers to a query. -/
def direct (rt : Runtime K) (st : State) (q : SearchQuery) : Except ServiceError (SearchResponse K) :=
  (execute (World.initial (E := inMemory rt) st) q).map contentOf

/-- Under the key, the result is the engine's for every query of the set, but for the text it
echoes. -/
def Direct (rt : Runtime K) (Q : SearchQuery → Prop) (st : State) (key : Str)
    (r : Except ServiceError (Answer K)) : Prop :=
  ∀ g q, Q q → keyOf rt g q = key → r.map (fun a => contentOf (echoing q.text a)) = direct rt st q

/-- It does not matter when the index is asked. -/
theorem direct_eq {w : World (inMemory rt)} (h : w.engine = st) (q : SearchQuery) :
    (execute w q).map contentOf = direct rt st q := by
  have hs : (World.initial (E := inMemory rt) st).engine = st := rfl
  unfold direct execute
  rw [h, hs]
  rcases (inMemory rt).search st q with (_ | _) | _ <;> rfl

/-- The engine's own answer is. -/
theorem direct_execute (hu : rt.toUnicode.Lowers) (hQ : CollisionFree rt Q)
    {w : World (inMemory rt)} (he : w.engine = st) {q : SearchQuery} (hq : Q q) (g : ℕ) :
    Direct rt Q st (keyOf rt g q) (execute w q) := by
  intro g' q' hq' hkey
  obtain ⟨ht, hd⟩ := keyOf_inj hkey.symm
  rw [← direct_eq he, execute_congr (alike_of_canonical hu ht (hQ q q' hq hq' hd))]
  cases execute w q <;> rfl

/-- What is cached, in flight and registered is the engine's. -/
structure DirectOk (rt : Runtime K) (Q : SearchQuery → Prop) (st : State)
    (w : World (inMemory rt)) : Prop where
  engine : w.engine = st
  cached : ∀ g q v, w.cache.store (keyOf rt g q) = some v →
    ∃ a, v = .search a ∧ Direct rt Q st (keyOf rt g q) (.ok a)
  settled : ∀ (i : ℕ) (x : Future K) r, w.futures[i]? = some x → x.result = some r →
    Direct rt Q st x.key r
  registered : ∀ r key f, w.inflight r key = some f → HasKey w f key

def directAssertion (rt : Runtime K) (Q : SearchQuery → Prop) (st : State)
    (w : World (inMemory rt)) : Task K → Prop
  | .search _ _ q .generation | .search _ _ q (.cacheRead _) | .search _ _ q (.flight _) => Q q
  | .search _ _ q (.waiting g f) | .search _ _ q (.execute g f) => Q q ∧ HasKey w f (keyOf rt g q)
  | .search _ _ q (.fill g f a) =>
      Q q ∧ HasKey w f (keyOf rt g q) ∧ Direct rt Q st (keyOf rt g q) (.ok a) ∧
        a.response.query = q.text
  | .search _ _ q (.finish g f r) =>
      Q q ∧ HasKey w f (keyOf rt g q) ∧ Direct rt Q st (keyOf rt g q) r ∧
        ∀ a, r = .ok a → a.response.query = q.text
  | .process _ => False
  | _ => True

def directOutline (rt : Runtime K) (Q : SearchQuery → Prop) (st : State) :
    Outline (World (inMemory rt)) (Task K) where
  inv w := DirectOk rt Q st w
  assertion w t := directAssertion rt Q st w t
  guarantee := FuturesStay

theorem echoes_execute {w : World (inMemory rt)} {q : SearchQuery} {a : Answer K}
    (h : execute w q = .ok a) : a.response.query = q.text := by
  unfold execute at h
  split at h
  · cases h
    rfl
  · cases h
  · cases h

/-! ### The steps -/

theorem DirectOk.frame {w w' : World (inMemory rt)} (h : DirectOk rt Q st w)
    (hf : SearchFrame rt w w') (he : w'.engine = w.engine) : DirectOk rt Q st w' where
  engine := he.trans h.engine
  cached g q v hv := h.cached g q v (hf.store g q v hv)
  settled i x r hx hr := h.settled i x r (hf.futures ▸ hx) hr
  registered r key f hi := (h.registered r key f (hf.inflight ▸ hi)).mono (.of_eq hf.futures)

theorem DirectOk.answer {w : World (inMemory rt)} (h : DirectOk rt Q st w) (s g : ℕ) (q : SearchQuery)
    (r : Except ServiceError (Answer K)) : DirectOk rt Q st (answer w s g q r) :=
  ⟨h.engine, h.cached, h.settled, h.registered⟩

theorem DirectOk.register {w : World (inMemory rt)} (h : DirectOk rt Q st w) (r : ℕ) (key : Str) :
    DirectOk rt Q st (register w r key) where
  engine := h.engine
  cached := h.cached
  settled i x res hx hr := by
    rcases futures_register hx with hx | rfl
    · exact h.settled i x res hx hr
    · cases hr
  registered r' key' f hi := hasKey_register h.registered r key hi

theorem DirectOk.unregister {w : World (inMemory rt)} (h : DirectOk rt Q st w) (r : ℕ) (key : Str) :
    DirectOk rt Q st (unregister w r key) where
  engine := h.engine
  cached := h.cached
  settled := h.settled
  registered r' key' f hi := h.registered r' key' f (inflight_unregister hi)

theorem DirectOk.settle {w : World (inMemory rt)} (h : DirectOk rt Q st w) {f : ℕ} {key : Str}
    {r : Except ServiceError (Answer K)} (hf : HasKey w f key) (hr : Direct rt Q st key r) :
    DirectOk rt Q st (settle w f r) where
  engine := h.engine
  cached := h.cached
  settled i x res hx hres := by
    rcases settled_settle hf hx hres with ⟨x₀, hx₀, hkey, hold⟩ | ⟨hkey, rfl⟩
    · exact hkey ▸ h.settled i x₀ res hx₀ hold
    · exact hkey.symm ▸ hr
  registered r' key' f' hi := (h.registered r' key' f' hi).mono (futuresStay_settle w f r)

theorem DirectOk.fill {w : World (inMemory rt)} (h : DirectOk rt Q st w) {g : ℕ} {q : SearchQuery}
    {a : Answer K} (ha : Direct rt Q st (keyOf rt g q) (.ok a)) :
    DirectOk rt Q st { w with cache := w.cache.setJson (keyOf rt g q) (.search a) } where
  engine := h.engine
  cached g' q' v hv := by
    rcases Cache.store_setJson hv with ⟨hk, rfl⟩ | hv
    · exact ⟨a, rfl, hk ▸ ha⟩
    · exact h.cached g' q' v hv
  settled := h.settled
  registered := h.registered

theorem directAssertion_mono {w w' : World (inMemory rt)} (hw : FuturesStay w w') {t : Task K}
    (h : directAssertion rt Q st w t) : directAssertion rt Q st w' t := by
  cases t with
  | search r s q step =>
      cases step with
      | generation | cacheRead | flight => exact h
      | waiting | execute => exact ⟨h.1, h.2.mono hw⟩
      | fill | finish => exact ⟨h.1, h.2.1.mono hw, h.2.2⟩
  | process _ => exact h
  | _ => trivial

theorem direct_preserves {cfg : Settings} (hu : rt.toUnicode.Lowers) (hQ : CollisionFree rt Q) :
    Preserves cfg rt (sameIndex rt Q) (Unserved rt st) .trivial (directOutline rt Q st) where
  init := by
    intro w hw
    refine ⟨hw.engine, fun g q v hv => ?_, fun i x r hx _ => ?_, fun r key f hi => ?_⟩
    · rw [hw.entries] at hv
      cases hv
    · rw [hw.futures] at hx
      cases hx
    · rw [hw.inflight] at hi
      cases hi
  start := by
    intro w r _ hP hi
    refine ⟨hi.frame (.quiet rfl rfl rfl rfl) rfl, ?_, .of_eq rfl⟩
    cases r with
    | search | process => exact hP
    | _ => trivial
  move := by
    intro w t w' u _ _ _ hm hi ht
    -- the outline of the world after the move, before the clock ticks
    have after : DirectOk rt Q st w' → FuturesStay w w' →
        (∀ t', u = some t' → directAssertion rt Q st w' t') →
        DirectOk rt Q st w'.tick ∧ (∀ t', u = some t' → directAssertion rt Q st w'.tick t') ∧
          FuturesStay w w'.tick := fun ha hfs hu =>
      ⟨ha.frame (.quiet rfl rfl rfl rfl) rfl,
        fun t' ht' => directAssertion_mono (.of_eq rfl) (hu t' ht'), hfs⟩
    have hp : processing t = false := by
      cases t with
      | process _ => exact ht.elim
      | _ => rfl
    by_cases hs : searching t = false
    · obtain ⟨hf, hu⟩ := searchFrame_move hm hs
      have he : w'.engine = w.engine := engine_move hm fun p hp' => by rw [hp'] at hp; cases hp
      refine after (hi.frame hf he) (.of_eq hf.futures) ?_
      rintro t' rfl
      have hs' := hu t' rfl
      have hp' := (processing_move hm).trans hp
      cases t' with
      | search => cases hs'
      | process => cases hp'
      | _ => trivial
    cases hm with
    | generationRead | searchMiss =>
        exact after hi (.of_eq rfl) fun _ h => by cases h; exact ht
    | searchHit | followed =>
        exact after (hi.answer _ _ _ _) (.of_eq rfl) fun _ h => by cases h
    | joined h =>
        exact after hi (.of_eq rfl) fun _ h' => by cases h'; exact ⟨ht, hi.registered _ _ _ h⟩
    | @led r s q g h =>
        refine after (hi.register r _) (futuresStay_register w r _) fun _ h' => ?_
        cases h'
        exact ⟨ht, ⟨keyOf rt g q, none⟩, List.getElem?_concat_length, rfl⟩
    | @executed r s q g f a h =>
        refine after hi (.of_eq rfl) fun _ h' => ?_
        cases h'
        exact ⟨ht.1, ht.2, h ▸ direct_execute hu hQ hi.engine ht.1 g, echoes_execute h⟩
    | @engineFailed r s q g f e h =>
        refine after hi (.of_eq rfl) fun _ h' => ?_
        cases h'
        exact ⟨ht.1, ht.2, h ▸ direct_execute hu hQ hi.engine ht.1 g, nofun⟩
    | @filled r s q g f a =>
        have hfill : Direct rt Q st (keyOf rt g q) (.ok (cacheable a)) := ht.2.2.1
        refine after (hi.fill hfill) (.of_eq rfl) fun _ h' => ?_
        cases h'
        exact ⟨ht.1, ht.2.1, ht.2.2.1, fun a' ha' => by cases ha'; exact ht.2.2.2⟩
    | @finished r s q g f a =>
        refine after ?_ (futuresStay_settle w f a) fun _ h => by cases h
        exact ((hi.settle ht.2.1 ht.2.2.1).unregister r _).answer _ _ _ _
    | _ => exact absurd rfl hs
  cancel := by
    intro w t _ _ hi _
    rcases cancel_cases rt w t with hc | ⟨r, q, g, hc⟩ <;> rw [hc]
    · exact ⟨hi, .of_eq rfl⟩
    · exact ⟨hi.unregister r _, .of_eq rfl⟩
  disturb := by
    intro w e _ hP hi
    have hf := searchFrame_disturb rt w e
    have hf' : SearchFrame rt w (disturb w e).tick := ⟨hf.futures, hf.inflight, hf.store, hf.log⟩
    refine ⟨hi.frame hf' ?_, .of_eq hf.futures⟩
    cases e with
    | engine => exact hP.elim
    | _ => rfl
  stable := by
    intro w w' t _ ho _ ht
    exact directAssertion_mono ho.guarantee ht

/-! ### The answers -/

/-- What is served to the search was computed for its own text. -/
def EchoesOwn (rt : Runtime K) (w : World (inMemory rt)) (q : SearchQuery) : SearchStep K → Prop
  | .cacheRead g => ∀ a, w.cache.getJson (keyOf rt g q) = some (.search a) → a.response.query = q.text
  | .waiting _ f => ∀ k a, w.futures[f]? = some ⟨k, some (.ok a)⟩ → a.response.query = q.text
  | _ => True

/-- A result that is the engine's but for the text it echoes, is the engine's when it echoes the
text of the query. -/
theorem Direct.eq_iff {key : Str} {r : Except ServiceError (Answer K)} (h : Direct rt Q st key r)
    {g : ℕ} {q : SearchQuery} (hq : Q q) (hk : keyOf rt g q = key) :
    r.map contentOf = direct rt st q ↔ ∀ a, r = .ok a → a.response.query = q.text := by
  rw [← h g q hq hk]
  cases r with
  | error e => exact iff_of_true rfl nofun
  | ok a =>
      constructor
      · intro he b hb
        cases hb
        exact congrArg SearchResponse.query (Except.ok.inj he)
      · intro he
        have ha : echoing q.text a = a := by
          rw [echoing, ← he a rfl]
        change Except.ok (contentOf a) = .ok (contentOf (echoing q.text a))
        rw [ha]

/-- What a search that ends has returned: the engine's result under its key, and what it echoes. -/
theorem returned_direct {cfg : Settings} (hu : rt.toUnicode.Lowers) (hQ : CollisionFree rt Q)
    {s s' : Config (World (inMemory rt)) (Task K)}
    (hr : (machine cfg rt (inMemory rt)).Reach (sameIndex rt Q) (Unserved rt st) s) {i r b : ℕ}
    {c : Str} {q : SearchQuery} {step : SearchStep K} (ht : s.tasks i = some (.search r b q step))
    (hs : (machine cfg rt (inMemory rt)).step s (.resume i c) = some s') (hdone : s'.tasks i = none) :
    ∃ g res, s'.world.log = (s.world.clock, .searched q.tenantId b g res) :: s.world.log ∧
      Q q ∧ Direct rt Q st (keyOf rt g q) res ∧
      ((∀ a, res = .ok a → a.response.query = q.text) ↔ EchoesOwn rt s.world q step) := by
  have hO : (machine cfg rt (inMemory rt)).Established (sameIndex rt Q) (Unserved rt st)
      (directOutline rt Q st) :=
    (direct_preserves hu hQ).valid.established Machine.established_trivial
  obtain ⟨hi, ha⟩ := hO.holds hr
  have ha := ha i _ ht
  rcases Machine.step_cases hs with ⟨_, _, _, _, h, -⟩ | ⟨_, _, t, w, u, h, ht', hw, rfl⟩ |
    ⟨_, _, h, -⟩ | ⟨_, _, h, -⟩ <;> cases h
  rw [ht] at ht'
  cases ht'
  obtain ⟨⟨w₁, u₁⟩, hm, he⟩ := Option.map_eq_some_iff.mp hw
  cases he
  have hu₁ : u₁ = none := by
    change Function.update s.tasks i u₁ i = none at hdone
    rwa [Function.update_self] at hdone
  have hm := resume_move hm
  cases hm with
  | @searchHit _ _ _ g v h =>
      obtain ⟨a, rfl, hd⟩ := hi.cached g q v (Cache.store_of_getJson h)
      refine ⟨_, _, rfl, ha, hd, fun he a' h' => ?_, fun he a' h' => ?_⟩
      · rw [h] at h'
        cases h'
        exact he (a.withCached true) rfl
      · cases h'
        exact he a h
  | @followed _ _ _ g f k res h =>
      obtain ⟨hq, x, hx, hk⟩ := ha
      have hd := hi.settled f _ res h rfl
      rw [h] at hx
      cases hx
      refine ⟨_, _, rfl, hq, hk ▸ hd, fun he k' a' h' => ?_, fun he a' h' => ?_⟩
      · rw [h] at h'
        cases h'
        exact he a' rfl
      · exact he k a' (h' ▸ h)
  | finished => exact ⟨_, _, rfl, ha.1, ha.2.2.1, iff_of_true ha.2.2.2 trivial⟩
  | _ => cases hu₁

/-- **Cache transparency.**  Over one index, whatever a search returns, from the cache, from a
coalesced search or from the engine, is what the engine answers to that very query, but for the
text it echoes; and it is so in that field as well exactly when what is served was computed for the
same text. -/
theorem search_transparent {cfg : Settings} (hu : rt.toUnicode.Lowers) (hQ : CollisionFree rt Q)
    {s s' : Config (World (inMemory rt)) (Task K)}
    (hr : (machine cfg rt (inMemory rt)).Reach (sameIndex rt Q) (Unserved rt st) s) {i r b : ℕ}
    {c : Str} {q : SearchQuery} {step : SearchStep K} (ht : s.tasks i = some (.search r b q step))
    (hs : (machine cfg rt (inMemory rt)).step s (.resume i c) = some s') (hdone : s'.tasks i = none) :
    ∃ g res, s'.world.log = (s.world.clock, .searched q.tenantId b g res) :: s.world.log ∧
      res.map (fun a => contentOf (echoing q.text a)) = direct rt st q ∧
      (res.map contentOf = direct rt st q ↔ EchoesOwn rt s.world q step) := by
  obtain ⟨g, res, hlog, hq, hd, he⟩ := returned_direct hu hQ hr ht hs hdone
  exact ⟨g, res, hlog, hd g q hq rfl, (hd.eq_iff hq rfl).trans he⟩

end Outline

end Pipeline

namespace Sample

open Pipeline

/-- The same search, in another spelling. -/
def shouted : SearchQuery := { query acme with text := "Revenue".toList }

/-- The two spellings of the search. -/
def Spelled (q : SearchQuery) : Prop := q = query acme ∨ q = shouted

instance (q : SearchQuery) : Decidable (Spelled q) :=
  inferInstanceAs (Decidable (q = query acme ∨ q = shouted))

theorem canonicalOf_shouted : canonicalOf runtime shouted = canonicalOf runtime (query acme) := by
  decide +kernel

theorem spelled_collisionFree : CollisionFree runtime Spelled := by
  rintro q q' (rfl | rfl) (rfl | rfl) -
  · rfl
  · exact canonicalOf_shouted.symm
  · exact canonicalOf_shouted
  · rfl

/-- An index of one document. -/
def oneDocument : State :=
  ⟨applyAll .empty [operationFor documentA.str (Document.new documentA acme payload 0)], true⟩

def unserved : World (inMemory runtime) := World.initial oneDocument

theorem unserved_ok : Unserved runtime oneDocument unserved :=
  ⟨rfl, fun _ _ => rfl, rfl, fun _ _ => rfl⟩

/-- A search is answered by the engine, and another search is about to find its entry. -/
def spelledTwice (q : SearchQuery) : Actions :=
  [.start 0 (.search 0 (query acme)), .resume 0 [], .resume 0 [], .resume 0 [], .resume 0 [],
    .resume 0 [], .resume 0 [], .start 1 (.search 0 q), .resume 1 []]

theorem spelledSame_runs : (service.run (Config.idle unserved) (spelledTwice (query acme))).isSome := by
  decide +kernel

theorem spelledOther_runs : (service.run (Config.idle unserved) (spelledTwice shouted)).isSome := by
  decide +kernel

theorem spelledTwice_reach {q : SearchQuery}
    (h : (service.run (Config.idle unserved) (spelledTwice q)).isSome)
    (hc : service.Conforms (sameIndex runtime Spelled) (Config.idle unserved) (spelledTwice q)) :
    service.Reach (sameIndex runtime Spelled) (Unserved runtime oneDocument)
      (service.after unserved (spelledTwice q) h) :=
  Machine.reach_after unserved_ok h hc

/-- The second search is about to read the cache. -/
def spelledSame : Config (World (inMemory runtime)) (Task ℚ) :=
  service.after unserved (spelledTwice (query acme)) spelledSame_runs

def spelledOther : Config (World (inMemory runtime)) (Task ℚ) :=
  service.after unserved (spelledTwice shouted) spelledOther_runs

theorem spelledSame_task :
    spelledSame.tasks 1 = some (.search 0 7 (query acme) (.cacheRead 0)) := rfl

theorem spelledOther_task :
    spelledOther.tasks 1 = some (.search 0 7 shouted (.cacheRead 0)) := rfl

theorem spelledSame_steps : (service.step spelledSame (.resume 1 [])).isSome := by decide +kernel

theorem spelledOther_steps : (service.step spelledOther (.resume 1 [])).isSome := by decide +kernel

theorem search_transparent_sample :
    ∃ g res, ((service.step spelledSame (.resume 1 [])).get spelledSame_steps).world.log =
        (spelledSame.world.clock, .searched acme 7 g res) :: spelledSame.world.log ∧
      res.map (fun a => contentOf (echoing (query acme).text a)) =
        direct runtime oneDocument (query acme) ∧
      (res.map contentOf = direct runtime oneDocument (query acme) ↔
        EchoesOwn runtime spelledSame.world (query acme) (.cacheRead 0)) :=
  search_transparent unicode_lowers spelled_collisionFree
    (spelledTwice_reach spelledSame_runs (by decide +kernel)) spelledSame_task
    (Option.some_get spelledSame_steps).symm rfl

/-- The search in the other spelling, answered from the cache. -/
def servedOther : Config (World (inMemory runtime)) (Task ℚ) :=
  (service.step spelledOther (.resume 1 [])).get spelledOther_steps

/-- What it was answered. -/
def otherResult : Except ServiceError (Answer ℚ) :=
  match servedOther.world.log with
  | (_, .searched _ _ _ r) :: _ => r
  | _ => .error .validation

theorem otherResult_query :
    otherResult.toOption.map (fun a => (contentOf a).query) = some "revenue".toList := by
  decide +kernel

theorem direct_query : (direct runtime oneDocument shouted).toOption.map SearchResponse.query =
    some "Revenue".toList := by decide +kernel

/-- **Another text.**  `q=Revenue` is answered from the entry of `q=revenue`, and echoes it. -/
theorem another_text : ¬ ∀ s s' i r b q step c g res,
    service.Reach (sameIndex runtime Spelled) (Unserved runtime oneDocument) s →
    s.tasks i = some (.search r b q step) → service.step s (.resume i c) = some s' →
    s'.world.log = (s.world.clock, .searched q.tenantId b g res) :: s.world.log →
    res.map contentOf = direct runtime oneDocument q := by
  intro h
  have he := h spelledOther servedOther 1 0 7 shouted (.cacheRead 0) [] 0 otherResult
    (spelledTwice_reach spelledOther_runs (by decide +kernel)) spelledOther_task
    (Option.some_get spelledOther_steps).symm rfl
  have hq := direct_query
  rw [← he] at hq
  have hmap : ∀ x : Except ServiceError (Answer ℚ), (x.map contentOf).toOption.map SearchResponse.query =
      x.toOption.map fun a => (contentOf a).query := by
    rintro (_ | _) <;> rfl
  rw [hmap, otherResult_query] at hq
  exact absurd hq (by decide)

end Sample

end DocSearch
